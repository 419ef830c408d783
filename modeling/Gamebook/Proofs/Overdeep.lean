/-
# Gamebook.Proofs.Overdeep — skipping what is nested too deep agrees with reading it

A conditional inside `maxNesting` others is not read but skipped, up to the closing marker that the skipping finds
by counting. In a canonical text that is its own closing marker, whatever the conditional holds, and reading goes
on behind it as if it had not been written (`Assembly.reads_tooDeep`). So a body is read back up to what is nested
too deep in it (`Node.readsBack`), and so is a story, with one error for each conditional that is cut away, at its
brace (`Story.ofTokens_render_prune`).

Two things are followed at once: what is put together, which does not depend on places, and what is noted, which
is about places only. `Assembly.shape` is the state without both places and incidents; a line that notes nothing
when the shape reads it notes nothing in its place either (`Assembly.foldl_line_quietly`).
-/
import Gamebook.Proofs.Pruning
import Gamebook.Proofs.Reading.Incident
import Gamebook.Proofs.RoundTrip
import Gamebook.Proofs.Spelling.Skipped

namespace Gamebook

open Gamebook.Lexeme
open Gamebook.Assembly (lineOf)
open Gamebook.Outline.Tail (Lined)

/-! ## Reading without places and incidents -/

/-- The incident of a conditional that is nested too deep and whose brace stands at `pos`. -/
def Incident.deepAt (pos : Position) : Incident := ⟨⟨.nestingTooDeep, pos⟩, .structural⟩

namespace Assembly

variable {a b : Assembly}

/-- A body under construction, without places and incidents. -/
def shape (a : Assembly) : Assembly := (a.relocate .erase).quiet

theorem length_frames_shape (a : Assembly) : a.shape.frames.length = a.frames.length := List.length_map _

/-- The shape tells what is skipped and how many conditionals are open. -/
theorem of_shape (h : a.shape = b) : a.skipping = b.skipping ∧ a.frames.length = b.frames.length := by
  subst h
  exact ⟨rfl, a.length_frames_shape.symm⟩

/-- What lines do to the shape of a body does not depend on what has been noted. -/
theorem shape_foldl_line (a : Assembly) (ls : List Line) :
    (ls.foldl line a).shape = ((ls.map (Line.relocate .erase)).foldl line a.shape).quiet := by
  calc (ls.foldl line a).shape
      = ((ls.map (Line.relocate .erase)).foldl line (a.relocate .erase)).quiet := by
        rw [foldl_line_relocate, shape]
    _ = ((ls.map (Line.relocate .erase)).foldl line (a.shape.after (a.relocate .erase).incidents)).quiet := by
        rw [shape, quiet_after]
    _ = ((ls.map (Line.relocate .erase)).foldl line a.shape).quiet := by
        rw [foldl_line_after]
        rfl

/-- Where the shape of a body is read on without an incident, so is the body. -/
theorem foldl_line_quietly (ls : List Line) (h : (ls.map (Line.relocate .erase)).foldl line a.shape = b)
    (hb : b.incidents = #[]) : (ls.foldl line a).shape = b ∧ (ls.foldl line a).incidents = a.incidents := by
  have hquiet : b.quiet = b := by
    rw [quiet, ← hb]
  refine ⟨by rw [shape_foldl_line, h, hquiet], ?_⟩
  have hmoved : (ls.foldl line a.quiet).relocate .erase = b := by
    rw [← foldl_line_relocate, ← h]
    simp [shape, quiet, relocate]
  have hnone : (ls.foldl line a.quiet).incidents = #[] := by
    have hincidents := congrArg Assembly.incidents hmoved
    rwa [hb, relocate, Array.map_eq_empty_iff] at hincidents
  calc (ls.foldl line a).incidents
      = (ls.foldl line (a.quiet.after a.incidents)).incidents := by rw [quiet_after]
    _ = a.incidents ++ (ls.foldl line a.quiet).incidents := by
        rw [foldl_line_after]
        rfl
    _ = a.incidents := by rw [hnone, Array.append_empty]

/-- The lines `ls` add the statements `ns`, and there are conditionals nested too deep at `places`. -/
structure Reads (a : Assembly) (ls : List Line) (ns : List Node) (places : List Position) : Prop where
  shape : (ls.foldl line a).shape = a.shape.pushAll ns
  incidents : (ls.foldl line a).incidents.toList = a.incidents.toList ++ places.map .deepAt

theorem reads_nil (a : Assembly) : a.Reads [] [] [] :=
  ⟨(pushAll_nil a.shape).symm, (List.append_nil _).symm⟩

section

variable {ls ms : List Line} {ns ks : List Node} {places others : List Position}

theorem Reads.skipping (h : a.Reads ls ns places) : (ls.foldl line a).skipping = a.skipping :=
  (of_shape h.shape).1

theorem Reads.length_frames (h : a.Reads ls ns places) : (ls.foldl line a).frames.length = a.frames.length :=
  (of_shape h.shape).2.trans a.length_frames_shape

theorem Reads.append (h : a.Reads ls ns places) (h' : (ls.foldl line a).Reads ms ks others) :
    a.Reads (ls ++ ms) (ns ++ ks) (places ++ others) := by
  constructor
  · rw [List.foldl_append, h'.shape, h.shape, pushAll_append]
  · rw [List.foldl_append, h'.incidents, h.incidents, List.map_append, List.append_assoc]

/-- Lines that only add statements. -/
theorem reads_of_lines {wss : List (List Token)} (hls : ls.map (Line.relocate .erase) = wss.map lineOf)
    (h : (wss.map lineOf).foldl line a.shape = a.shape.pushAll ns) : a.Reads ls ns [] := by
  rw [← hls] at h
  obtain ⟨hshape, hincidents⟩ := foldl_line_quietly ls h rfl
  exact ⟨hshape, by rw [hincidents, List.map_nil, List.append_nil]⟩

/-! ## Conditionals -/

/-- A line that opens a conditional which is not nested too deep. -/
theorem line_opened (hskip : a.skipping = none) (hdepth : a.frames.length < maxNesting) {guard : Expr}
    (hguard : guard.Fits) {opened : Line} (hopened : opened.relocate .erase = lineOf (guardSpelling guard)) :
    (a.line opened).shape = a.shape.openBlock (guard.relocate .erase) .unplaced ∧
      (a.line opened).incidents = a.incidents := by
  rw [← length_frames_shape] at hdepth
  refine foldl_line_quietly [opened] ?_ rfl
  rw [List.map_singleton, hopened]
  exact line_guard (show a.shape.skipping = none from hskip) hdepth hguard

/-- The line of a marker. -/
theorem line_marked (hskip : a.skipping = none) {marker : Marker} {marked : Line}
    (hmarked : marked.relocate .erase = lineOf marker.line) :
    (a.line marked).shape = a.shape.mark marker .unplaced ∧ (a.line marked).incidents = a.incidents := by
  refine foldl_line_quietly [marked] ?_ (mark_incidents a.shape marker .unplaced).1
  rw [List.map_singleton, hmarked]
  exact line_marker (show a.shape.skipping = none from hskip) marker

/-- A dividing line opens no conditional and closes none. -/
theorem line_divided (hskip : a.skipping = none) {divided : Line}
    (hdivided : divided.relocate .erase = lineOf Marker.otherwise.line) :
    (a.line divided).skipping = none ∧ (a.line divided).frames.length = a.frames.length := by
  obtain ⟨hskip', hframes⟩ := of_shape (line_marked hskip hdivided).1
  have hmark : (a.shape.mark .otherwise .unplaced).frames.length = a.shape.frames.length := by
    cases hcases : a.shape.frames with
    | nil => simp [mark, push, hcases]
    | cons f fs => cases hfirst : f.first <;> simp [mark, push, hcases, hfirst]
  exact ⟨hskip'.trans ((mark_incidents a.shape .otherwise .unplaced).2.trans hskip),
    hframes.trans (hmark.trans a.length_frames_shape)⟩

/-- A conditional without a second branch. -/
theorem Reads.conditional_none (hskip : a.skipping = none) (hdepth : a.frames.length < maxNesting) {guard : Expr}
    (hguard : guard.Fits) {opened closed : Line} (hopened : opened.relocate .erase = lineOf (guardSpelling guard))
    (hclosed : closed.relocate .erase = lineOf Marker.close.line) (h : (a.line opened).Reads ls ns places) :
    a.Reads (opened :: (ls ++ [closed]))
      [.conditional (guard.relocate .erase) ns none .unplaced (some .unplaced)] places := by
  obtain ⟨hopen, hincidents⟩ := line_opened hskip hdepth hguard hopened
  have hskip' : (ls.foldl line (a.line opened)).skipping = none :=
    h.skipping.trans ((of_shape hopen).1.trans hskip)
  obtain ⟨hclose, hincidents'⟩ := line_marked hskip' hclosed
  rw [h.shape, hopen, mark_close_first] at hclose
  constructor
  · rw [List.foldl_cons, List.foldl_append, pushAll_singleton]
    exact hclose
  · rw [← hincidents, ← h.incidents, ← hincidents', List.foldl_cons, List.foldl_append]
    rfl

/-- A conditional with two branches. -/
theorem Reads.conditional_some (hskip : a.skipping = none) (hdepth : a.frames.length < maxNesting) {guard : Expr}
    (hguard : guard.Fits) {opened divided closed : Line}
    (hopened : opened.relocate .erase = lineOf (guardSpelling guard))
    (hdivided : divided.relocate .erase = lineOf Marker.otherwise.line)
    (hclosed : closed.relocate .erase = lineOf Marker.close.line) (h : (a.line opened).Reads ls ns places)
    (h' : ((ls.foldl line (a.line opened)).line divided).Reads ms ks others) :
    a.Reads (opened :: (ls ++ divided :: (ms ++ [closed])))
      [.conditional (guard.relocate .erase) ns (some ks) .unplaced (some .unplaced)] (places ++ others) := by
  obtain ⟨hopen, hincidents⟩ := line_opened hskip hdepth hguard hopened
  have hskip' : (ls.foldl line (a.line opened)).skipping = none :=
    h.skipping.trans ((of_shape hopen).1.trans hskip)
  obtain ⟨hdivide, hincidents'⟩ := line_marked hskip' hdivided
  rw [h.shape, hopen, mark_otherwise_first] at hdivide
  have hskip'' : (ms.foldl line ((ls.foldl line (a.line opened)).line divided)).skipping = none :=
    h'.skipping.trans ((of_shape hdivide).1.trans hskip)
  obtain ⟨hclose, hincidents''⟩ := line_marked hskip'' hclosed
  rw [h'.shape, hdivide, mark_close_second] at hclose
  constructor
  · rw [List.foldl_cons, List.foldl_append, List.foldl_cons, List.foldl_append, pushAll_singleton]
    exact hclose
  · rw [List.map_append, ← List.append_assoc, ← hincidents, ← h.incidents, ← hincidents', ← h'.incidents,
      ← hincidents'', List.foldl_cons, List.foldl_append, List.foldl_cons, List.foldl_append]
    rfl

/-- A conditional that is nested too deep leaves nothing but its incident. -/
theorem reads_tooDeep (hskip : a.skipping = none) (hdepth : maxNesting ≤ a.frames.length) {guard : Expr}
    {t : Token} {ts : List Token} {stop : LineEnd}
    (hopened : Line.relocate .erase ⟨t :: ts, stop⟩ = lineOf (guardSpelling guard)) {wss : List (List Token)}
    (hpasses : Passes wss) (hls : ls.map (Line.relocate .erase) = (wss ++ [Marker.close.line]).map lineOf) :
    a.Reads (⟨t :: ts, stop⟩ :: ls) [] [t.pos] := by
  have hwords : (t :: ts).map (Token.relocate .erase) = guardSpelling guard := congrArg Line.tokens hopened
  have hbrace : t.kind = .opening .brace := congrArg Token.kind (List.cons.inj hwords).1
  have hskipped : skip 0 true (t :: ts) = .inl 1 := by
    have hmoved := skip_relocate .erase 0 true (t :: ts)
    rw [hwords, skip_guardSpelling] at hmoved
    cases hts : skip 0 true (t :: ts) with
    | inl waiting =>
      rw [hts] at hmoved
      exact hmoved.symm
    | inr rest =>
      rw [hts] at hmoved
      cases hmoved
  have hline : a.line ⟨t :: ts, stop⟩ = (a.note (.tooDeep t)).wait 1 := by
    rw [line, hskip]
    exact readLine_skipped hbrace hdepth hskipped
  obtain ⟨hshape, hincidents⟩ := foldl_line_quietly (a := (a.note (.tooDeep t)).wait 1) (b := a.shape) ls
    (by
      rw [hls, hpasses.closed rfl]
      obtain ⟨nodes, frames, skipping, incidents⟩ := a
      subst hskip
      rfl) rfl
  rw [← hline] at hshape hincidents
  constructor
  · rw [List.foldl_cons, hshape, pushAll_nil]
  · rw [List.foldl_cons, hincidents, hline]
    exact Array.toList_push

end

end Assembly

/-! ## Bodies -/

namespace Node

/-- Written inside `depth` conditionals, from whatever place on, the statements are read back without those that
are nested too deep, and these are noted where their braces stand. -/
def ReadsBack (depth : Nat) (ns : List Node) : Prop :=
  ∀ (a : Assembly) (pos : Position), a.skipping = none → a.frames.length = depth →
    ∃ ls, Lined (tokensAt pos (charsAll depth ns)) ls ∧
      a.Reads ls (pruneAll depth (settleAll ns)) (deepPlacesAll depth pos ns)

theorem readsBack_nil (depth : Nat) : ReadsBack depth [] := by
  intro a pos _ _
  refine ⟨[], ?_, a.reads_nil⟩
  rw [charsAll, tokensAt, scan_nil]
  exact .nil

theorem ReadsBack.cons {depth : Nat} {n : Node} {ns : List Node} {ws : List Token}
    (hstands : Stands (charsAll depth [n]) ws) (h : ReadsBack depth [n]) (h' : ReadsBack depth ns) :
    ReadsBack depth (n :: ns) := by
  have hone : charsAll depth [n] = n.chars depth := by rw [charsAll, charsAll, List.append_nil]
  intro a pos hskip hframes
  obtain ⟨ls, hlined, hreads⟩ := h a pos hskip hframes
  obtain ⟨ms, hlined', hreads'⟩ := h' (ls.foldl Assembly.line a) (pos.advance (charsAll depth [n]))
    (hreads.skipping.trans hskip) (hreads.length_frames.trans hframes)
  refine ⟨ls ++ ms, ?_, ?_⟩
  · rw [charsAll, ← hone, hstands.tokensAt_append]
    exact hlined.append hlined'
  · have hplaces : deepPlacesAll depth pos (n :: ns) = deepPlacesAll depth pos [n] ++
        deepPlacesAll depth (pos.advance (charsAll depth [n])) ns := by
      rw [hone]
      simp only [deepPlacesAll, List.append_nil]
    have hprune : pruneAll depth (settleAll (n :: ns))
        = pruneAll depth (settleAll [n]) ++ pruneAll depth (settleAll ns) := by
      simp only [settleAll, pruneAll_append, List.append_nil]
    rw [hplaces, hprune]
    exact hreads.append hreads'

section

variable {Q : Expr → Prop} (hQ : ∀ e, Q e → e.isWritten = true ∧ e.Fits) {depth : Nat}

include hQ

theorem readsBack_leaf {n : Node} (hn : n.isConditional = false) (h : n.Writable Q) (hwhole : n.isWhole = true) :
    ReadsBack depth [n] := by
  intro a pos hskip hframes
  have hstands := stands_charsAll (fun e he => (hQ e he).1) ((everywhere_leaf hn).mpr h) depth
  obtain ⟨ls, hlined, hls⟩ := hstands.exists_lined (areInner_linesAll [n]) pos
  refine ⟨ls, hlined, ?_⟩
  have hstray : ∀ m pos, n = .stray m pos → a.shape.mark m .unplaced = a.shape.push (.stray m .unplaced) := by
    rintro m pos rfl
    cases hwhole
  have hlines := Assembly.lines_leaf (a := a.shape) (fun e he => (hQ e he).2) hskip hn h hstray
  simp only [settleAll, deepPlacesAll, linesAll, List.append_nil, deepPlaces_leaf hn, pruneAll_settle_leaf hn]
    at hls ⊢
  exact Assembly.reads_of_lines hls hlines

/-- A conditional that is nested too deep. -/
theorem readsBack_tooDeep (hdepth : maxNesting ≤ depth) {guard : Expr} {body : List Node}
    {otherwise : Option (List Node)} {opening : Position} {closing : Option Position}
    (h : Everywhere (Writable Q) [conditional guard body otherwise opening closing])
    (hwhole : Everywhere (fun n => n.isWhole = true) [conditional guard body otherwise opening closing]) :
    ReadsBack depth [conditional guard body otherwise opening closing] := by
  intro a pos hskip hframes
  have hstands := stands_charsAll (fun e he => (hQ e he).1) h depth
  obtain ⟨ls, hlined, hls⟩ := hstands.exists_lined (areInner_linesAll _) pos
  obtain ⟨hclosed, hbody, hbranch⟩ := everywhere_conditional.mp hwhole
  obtain ⟨wss, hpasses, hlines⟩ := Assembly.exists_lines_conditional guard opening hclosed
    (Assembly.passes_linesAll hbody) fun branch hsome => Assembly.passes_linesAll (hbranch branch hsome)
  rw [linesAll, linesAll, List.append_nil, hlines, List.map_cons] at hls
  obtain ⟨⟨tokens, stop⟩, more, rfl, hopened, hmore⟩ := List.map_eq_cons_iff.mp hls
  obtain ⟨t, ts, rfl, -, -⟩ := List.map_eq_cons_iff.mp (congrArg Line.tokens hopened)
  -- Its brace is the first token of the text, so the first of its lines starts there.
  have hpos : t.pos = pos.advance (indentation depth) := by
    obtain ⟨text, htext⟩ := exists_chars_conditional depth guard body otherwise opening closing
    rw [charsAll, charsAll, List.append_nil, htext] at hlined
    generalize htokens : tokensAt pos (indentation depth ++ '{' :: text) = tokens at hlined
    cases hlined
    exact pos_of_tokensAt_brace htokens
  refine ⟨_, hlined, ?_⟩
  rw [settleAll, settleAll, List.append_nil, pruneAll_settle_tooDeep hdepth, deepPlacesAll, deepPlacesAll,
    List.append_nil, deepPlaces_tooDeep hdepth, ← hpos]
  exact Assembly.reads_tooDeep hskip (hframes ▸ hdepth) hopened hpasses hmore

theorem stands_guardLine {guard : Expr} (hguard : Q guard) (depth : Nat) :
    Stands (guardLine depth guard) (unlines [guardSpelling guard]) :=
  (spells_condition (hQ guard hguard).1).stands
    (Token.all_isInner_of_isPlain (all_isPlain_guardSpelling guard)) depth

/-- The line that opens a conditional which is not nested too deep. -/
theorem exists_opened {a : Assembly} (hskip : a.skipping = none) (hframes : a.frames.length = depth)
    (hdepth : depth < maxNesting) {guard : Expr} (hguard : Q guard) (pos : Position) :
    ∃ opened, Lined (tokensAt pos (guardLine depth guard)) [opened] ∧
      opened.relocate .erase = lineOf (guardSpelling guard) ∧ (a.line opened).skipping = none ∧
      (a.line opened).frames.length = depth + 1 := by
  obtain ⟨opened, hlined, hopened⟩ := (spells_condition (hQ guard hguard).1).exists_line
    (Token.all_isInner_of_isPlain (all_isPlain_guardSpelling guard)) depth pos
  obtain ⟨hshape, -⟩ := Assembly.line_opened hskip (hframes ▸ hdepth) (hQ guard hguard).2 hopened
  obtain ⟨hskip', hframes'⟩ := Assembly.of_shape hshape
  refine ⟨opened, hlined, hopened, hskip'.trans hskip, hframes'.trans ?_⟩
  show a.shape.frames.length + 1 = depth + 1
  rw [Assembly.length_frames_shape, hframes]

/-- A conditional without a second branch that is not nested too deep. -/
theorem readsBack_conditional_none (hdepth : depth < maxNesting) {guard : Expr} {body : List Node}
    {opening closing : Position} (hguard : Q guard) (hwritable : Everywhere (Writable Q) body)
    (hbody : ReadsBack (depth + 1) body) :
    ReadsBack depth [conditional guard body none opening (some closing)] := by
  intro a pos hskip hframes
  obtain ⟨opened, hlined, hopened, hskip', hframes'⟩ := exists_opened hQ hskip hframes hdepth hguard pos
  obtain ⟨ls, hlined', hreads⟩ := hbody (a.line opened) (pos.advance (guardLine depth guard)) hskip' hframes'
  obtain ⟨closed, hlined'', hclosed⟩ := (spells_marker .close).exists_line rfl depth
    ((pos.advance (guardLine depth guard)).advance (charsAll (depth + 1) body))
  refine ⟨opened :: (ls ++ [closed]), ?_, ?_⟩
  · have hopen := stands_guardLine hQ hguard depth
    have hinside := stands_charsAll (fun e he => (hQ e he).1) hwritable (depth + 1)
    rw [charsAll, charsAll, List.append_nil, chars_conditional_none, ← guardLine, hopen.tokensAt_append,
      hinside.tokensAt_append]
    exact hlined.append (hlined'.append hlined'')
  · rw [settleAll, settleAll, List.append_nil, pruneAll_settle_conditional hdepth, deepPlacesAll, deepPlacesAll,
      List.append_nil, deepPlaces, if_neg (Nat.not_le.mpr hdepth)]
    exact .conditional_none hskip (hframes ▸ hdepth) (hQ guard hguard).2 hopened hclosed hreads

/-- A conditional with two branches that is not nested too deep. -/
theorem readsBack_conditional_some (hdepth : depth < maxNesting) {guard : Expr} {body branch : List Node}
    {opening closing : Position} (hguard : Q guard) (hwritable : Everywhere (Writable Q) body)
    (hwritable' : Everywhere (Writable Q) branch) (hbody : ReadsBack (depth + 1) body)
    (hbranch : ReadsBack (depth + 1) branch) :
    ReadsBack depth [conditional guard body (some branch) opening (some closing)] := by
  intro a pos hskip hframes
  obtain ⟨opened, hlined, hopened, hskip', hframes'⟩ := exists_opened hQ hskip hframes hdepth hguard pos
  obtain ⟨ls, hlined', hreads⟩ := hbody (a.line opened) (pos.advance (guardLine depth guard)) hskip' hframes'
  obtain ⟨divided, hlinedDivided, hdivided⟩ := (spells_marker .otherwise).exists_line rfl depth
    ((pos.advance (guardLine depth guard)).advance (charsAll (depth + 1) body))
  obtain ⟨hskip'', hframes''⟩ := Assembly.line_divided (hreads.skipping.trans hskip') hdivided
  obtain ⟨ms, hlinedBranch, hreads'⟩ := hbranch ((ls.foldl Assembly.line (a.line opened)).line divided)
    (((pos.advance (guardLine depth guard)).advance (charsAll (depth + 1) body)).advance
      (markerLine depth .otherwise)) hskip'' (hframes''.trans (hreads.length_frames.trans hframes'))
  obtain ⟨closed, hlinedClosed, hclosed⟩ := (spells_marker .close).exists_line rfl depth
    ((((pos.advance (guardLine depth guard)).advance (charsAll (depth + 1) body)).advance
      (markerLine depth .otherwise)).advance (charsAll (depth + 1) branch))
  refine ⟨opened :: (ls ++ divided :: (ms ++ [closed])), ?_, ?_⟩
  · have hopen := stands_guardLine hQ hguard depth
    have hfirst := stands_charsAll (fun e he => (hQ e he).1) hwritable (depth + 1)
    have hdivide := (spells_marker .otherwise).stands rfl depth
    have hsecond := stands_charsAll (fun e he => (hQ e he).1) hwritable' (depth + 1)
    rw [charsAll, charsAll, List.append_nil, chars_conditional_some, ← guardLine, hopen.tokensAt_append,
      hfirst.tokensAt_append, hdivide.tokensAt_append, hsecond.tokensAt_append]
    exact hlined.append (hlined'.append (hlinedDivided.append (hlinedBranch.append hlinedClosed)))
  · rw [settleAll, settleAll, List.append_nil, pruneAll_settle_conditional hdepth, deepPlacesAll, deepPlacesAll,
      List.append_nil, deepPlaces, if_neg (Nat.not_le.mpr hdepth)]
    exact .conditional_some hskip (hframes ▸ hdepth) (hQ guard hguard).2 hopened hdivided hclosed hreads hreads'

/-- **A body that lacks no marker is read back,** up to what is nested too deep in it. -/
theorem readsBack {ns : List Node} (h : Everywhere (Writable Q) ns)
    (hwhole : Everywhere (fun n => n.isWhole = true) ns) (depth : Nat) : ReadsBack depth ns := by
  induction ns using body_induction generalizing depth with
  | nil => exact readsBack_nil depth
  | leaf n ns hn ih =>
    obtain ⟨hhead, htail⟩ := everywhere_cons.mp h
    obtain ⟨hwholeHead, hwholeTail⟩ := everywhere_cons.mp hwhole
    refine .cons (stands_charsAll (fun e he => (hQ e he).1) hhead depth) ?_ (ih htail hwholeTail depth)
    rw [everywhere_leaf hn] at hhead hwholeHead
    exact readsBack_leaf hQ hn hhead hwholeHead
  | conditional guard body otherwise opening closing ns ihBody ihBranch ih =>
    obtain ⟨hhead, htail⟩ := everywhere_cons.mp h
    obtain ⟨hwholeHead, hwholeTail⟩ := everywhere_cons.mp hwhole
    refine .cons (stands_charsAll (fun e he => (hQ e he).1) hhead depth) ?_ (ih htail hwholeTail depth)
    -- What is nested too deep is passed over as a whole, so the induction hypotheses are not needed there.
    rcases Nat.lt_or_ge depth maxNesting with hdepth | hdepth
    · obtain ⟨hguard, hbody, hbranch⟩ := everywhere_conditional.mp hhead
      obtain ⟨hclosed, hwholeBody, hwholeBranch⟩ := everywhere_conditional.mp hwholeHead
      obtain ⟨pos, rfl⟩ := Option.isSome_iff_exists.mp hclosed
      cases otherwise with
      | none => exact readsBack_conditional_none hQ hdepth hguard hbody (ihBody hbody hwholeBody _)
      | some branch =>
        exact readsBack_conditional_some hQ hdepth hguard hbody (hbranch branch rfl) (ihBody hbody hwholeBody _)
          (ihBranch branch rfl (hbranch branch rfl) (hwholeBranch branch rfl) _)
    · exact readsBack_tooDeep hQ hdepth hhead hwholeHead

end

end Node

/-! ## Passages -/

/-- Lines that hold nothing may follow. -/
theorem Assembly.ofLines_append_blank (ls : List Line) {blanks : List Line} (h : ∀ l ∈ blanks, l.holds = false) :
    Assembly.ofLines (ls ++ blanks) = Assembly.ofLines ls := by
  have hnone : blanks.filter Line.holds = [] := List.filter_eq_nil_iff.mpr fun l hl => by simp [h l hl]
  rw [← Assembly.ofLines_filter_holds, List.filter_append, hnone, List.append_nil, Assembly.ofLines_filter_holds]

theorem Preamble.ofLines_append_blank (ls : List Line) {blanks : List Line} (h : ∀ l ∈ blanks, l.holds = false) :
    Preamble.ofLines (ls ++ blanks) = Preamble.ofLines ls := by
  have hnone : blanks.filter Line.holds = [] := List.filter_eq_nil_iff.mpr fun l hl => by simp [h l hl]
  rw [← Preamble.ofLines_filter_holds, List.filter_append, hnone, List.append_nil, Preamble.ofLines_filter_holds]

/-- What lines that are read from the start of a passage put together. -/
theorem Assembly.Reads.ofLines {ls : List Line} {ns : List Node} {places : List Position}
    (h : Assembly.empty.Reads ls ns places) :
    Node.relocateAll .erase (Assembly.ofLines ls).body = ns ∧
      (Assembly.ofLines ls).incidents.toList = places.map .deepAt := by
  refine ⟨?_, h.incidents⟩
  have hbody : ((Assembly.ofLines ls).relocate .erase).body = ns := by
    show (Assembly.ofLines ls).shape.body = ns
    rw [Assembly.ofLines, h.shape]
    simp [Assembly.body, Assembly.pushAll, Assembly.shape, Assembly.quiet, Assembly.relocate, Assembly.empty,
      Assembly.closeAll]
  rw [Node.relocateAll_eq_map, ← Assembly.body_relocate, hbody]

/-- A header is read back, wherever it stands. -/
theorem Header.ofLine_of_erase {p : Passage} {header : Line}
    (h : header.relocate .erase = lineOf (headerSpelling p)) :
    Header.ofLine header = ⟨some p.name, p.tags, []⟩ := by
  have hmoved := Header.ofLine_relocate .erase header
  rw [h, Header.ofLine_spelling] at hmoved
  generalize Header.ofLine header = read at hmoved
  obtain ⟨name, tags, incidents⟩ := read
  simp only [Header.mk.injEq] at hmoved
  obtain ⟨rfl, rfl, hincidents⟩ := hmoved
  rw [List.map_eq_nil_iff.mp hincidents.symm]

section

open Outline (Tail)

variable {Q : Expr → Prop} (hQ : ∀ e, Q e → e.isWritten = true ∧ e.Fits)

include hQ

/-- A passage is laid out as a section, from which it is read back up to what is nested too deep. -/
theorem Passage.exists_section {p : Passage} (h : p.Spellable Q) (hwhole : p.IsWhole) (pos : Position)
    (tail : Tail) (hblank : ∀ l ∈ tail.toOutline.preamble, l.holds = false) :
    ∃ (stop : LineEnd) (part : Section),
      tail.pushAll (tokensAt pos p.chars) = ⟨⟨[], stop⟩, [], part :: tail.sections⟩ ∧
        part.passage?.map (Passage.relocate .erase) = some p.settle.prune ∧
        part.incidents = (p.deepPlaces pos).map .deepAt := by
  have hstands := p.stands_headerChars h
  obtain ⟨marker, ts, htokens, hmarker, hts⟩ := List.map_eq_cons_iff.mp (hstands.map_erase_tokensAt pos)
  obtain ⟨headers, hlined, hheaders⟩ := Tail.exists_lined p.areInner_header hts
  obtain ⟨header, rfl, hheader⟩ := List.map_eq_singleton_iff.mp hheaders
  obtain ⟨ls, hlined', hreads⟩ := Node.readsBack hQ h.body hwhole 0 .empty (pos.advance p.headerChars) rfl rfl
  obtain ⟨hbody, hincidents⟩ := hreads.ofLines
  have hlayout := (hlined.append hlined').toOutline_pushAll tail
  obtain ⟨hline, hmore⟩ := List.cons_eq_cons.mp (congrArg Outline.preamble hlayout)
  have hsections : (tail.pushAll (ts ++ tokensAt (pos.advance p.headerChars) (Node.charsAll 0 p.body))).sections
      = tail.sections := congrArg Outline.sections hlayout
  have hkind : marker.kind = .passageMarker := congrArg Token.kind hmarker
  refine ⟨⟨marker.pos, some marker.describe⟩, ⟨marker.pos, header, ls ++ tail.toOutline.preamble⟩, ?_, ?_, ?_⟩
  · rw [chars, hstands.tokensAt_append, htokens, List.cons_append, Tail.pushAll_cons, Tail.push_marker _ hkind,
      hline, hmore, hsections]
    rfl
  · rw [Section.passage?, Header.ofLine_of_erase hheader, Assembly.ofLines_append_blank ls hblank]
    simp only [Option.map_some, Passage.relocate, hbody]
    rfl
  · rw [Section.incidents, Header.ofLine_of_erase hheader, Assembly.ofLines_append_blank ls hblank, hincidents]
    rfl

omit hQ in
/-- A break before a layout that starts with nothing makes a blank line more. -/
theorem Outline.Tail.exists_pushAll_break (pos : Position) (stop : LineEnd) (parts : List Section) :
    ∃ tail : Tail, (Tail.mk ⟨[], stop⟩ [] parts).pushAll (tokensAt pos ['\n']) = tail ∧ tail.sections = parts ∧
      ∀ l ∈ tail.toOutline.preamble, l.holds = false := by
  obtain ⟨ls, hlined, hls⟩ := stands_break.exists_lined rfl pos
  obtain ⟨l, rfl, hl⟩ := List.map_eq_singleton_iff.mp hls
  have hlayout := hlined.toOutline_pushAll ⟨⟨[], stop⟩, [], parts⟩
  refine ⟨_, rfl, congrArg Outline.sections hlayout, ?_⟩
  have htokens : l.tokens = [] := List.map_eq_nil_iff.mp (congrArg Line.tokens hl)
  rw [hlayout]
  intro l' hl'
  rcases List.mem_cons.mp hl' with rfl | hl'
  · rw [Line.holds, htokens]
    rfl
  · rw [List.mem_singleton.mp hl']
    rfl

/-- Passages with blank lines between them are laid out as such sections. -/
theorem Passage.exists_sections {ps : List Passage} (h : ∀ p ∈ ps, p.Spellable Q) (hwhole : ∀ p ∈ ps, p.IsWhole)
    (pos ending : Position) :
    ∃ (stop : LineEnd) (parts : List Section),
      (Tail.atEnd ending).pushAll (tokensAt pos (['\n'].intercalate (ps.map Passage.chars)))
          = ⟨⟨[], stop⟩, [], parts⟩ ∧
        (parts.filterMap Section.passage?).map (Passage.relocate .erase) = ps.map (fun p => p.settle.prune) ∧
        parts.flatMap Section.incidents = (Passage.deepPlacesAll pos ps).map .deepAt := by
  induction ps generalizing pos with
  | nil =>
    refine ⟨⟨ending, none⟩, [], ?_, rfl, rfl⟩
    rw [List.map_nil, List.intercalate_nil, tokensAt, scan_nil]
    rfl
  | cons p ps ih =>
    rw [List.forall_mem_cons] at h hwhole
    obtain ⟨stop, parts, hlayout, hpassages, hincidents⟩ :=
      ih h.2 hwhole.2 ((pos.advance p.chars).advance ['\n'])
    -- Behind the passage there are blank lines, and then the sections of the other passages.
    obtain ⟨tail, htail, hsections, hblank⟩ : ∃ tail : Tail,
        (Tail.atEnd ending).pushAll (tokensAt pos (['\n'].intercalate ((p :: ps).map Passage.chars)))
          = tail.pushAll (tokensAt pos p.chars) ∧ tail.sections = parts ∧
        ∀ l ∈ tail.toOutline.preamble, l.holds = false := by
      cases ps with
      | nil =>
        rw [List.map_nil, List.intercalate_nil, tokensAt, scan_nil] at hlayout
        refine ⟨.atEnd ending, ?_, congrArg Tail.sections hlayout, ?_⟩
        · rw [List.map_singleton, List.intercalate_singleton]
        · intro l hl
          rw [List.mem_singleton.mp hl]
          rfl
      | cons q ps =>
        obtain ⟨tail, htail, hsections, hblank⟩ :=
          Outline.Tail.exists_pushAll_break (pos.advance p.chars) stop parts
        have hstands := p.stands_chars (fun e he => (hQ e he).1) h.1
        refine ⟨tail, ?_, hsections, hblank⟩
        rw [List.map_cons, List.map_cons, List.intercalate_cons_cons, ← List.map_cons, List.append_assoc,
          hstands.tokensAt_append, stands_break.tokensAt_append, Tail.pushAll_append, Tail.pushAll_append,
          hlayout, htail]
    obtain ⟨stop', part, hlayout', hpassage, hincidents'⟩ :=
      p.exists_section hQ h.1 hwhole.1 pos tail hblank
    obtain ⟨found, hfound, hmoved⟩ := Option.map_eq_some_iff.mp hpassage
    refine ⟨stop', part :: parts, by rw [htail, hlayout', hsections], ?_, ?_⟩
    · rw [List.filterMap_cons_some hfound, List.map_cons, hmoved, hpassages, List.map_cons]
    · rw [List.flatMap_cons, hincidents', hincidents, Passage.deepPlacesAll, List.map_append]

end

/-! ## Stories -/

namespace Story

section

variable {Q : Expr → Prop} (hQ : ∀ e, Q e → e.isWritten = true) {s : Story}

include hQ

theorem tokens_render (h : s.Spellable Q) : (Lexed.ofSource s.render).tokens
    = tokensAt .start s.chars ++ [.endAt (Position.start.advance s.chars)] := by
  show tokens .start (scan .lineStart (Text.normalChars s.render)) = _
  rw [normalChars_render hQ h, tokens_eq_placed, flatMap_raw_scan]
  rfl

/-- The tokens of a canonical text are laid out one by one. -/
theorem outline_render (h : s.Spellable Q) : Outline.ofTokens (Lexed.ofSource s.render).tokens
    = ((Outline.Tail.atEnd (Position.start.advance s.chars)).pushAll (tokensAt .start s.chars)).toOutline := by
  have hread : ∀ t ∈ tokensAt .start s.chars, t.isRead = true := by
    intro t ht
    have hmem := List.mem_map_of_mem (f := Token.relocate .erase) ht
    rw [map_erase_tokensAt, words_chars hQ h] at hmem
    exact List.all_eq_true.mp s.all_isRead_spelling (t.relocate .erase) hmem
  rw [tokens_render hQ h, Outline.ofTokens_eq_toOutline,
    Outline.tailOf_append (fun t ht => (Token.kind_of_isRead (hread t ht)).2.2)
      ⟨_, List.mem_singleton_self _, rfl⟩,
    Outline.filter_words fun t ht => (Token.kind_of_isRead (hread t ht)).1]
  rfl

end

/-- What stands before the first passage is read back as metadata, wherever it stands. -/
theorem ofLines_lead {Q : Expr → Prop} {s : Story} (h : s.Spellable Q) {ls : List Line}
    (hls : ls.map (Line.relocate .erase) = s.leadLines.map lineOf) :
    Preamble.ofLines ls = ⟨s.title, s.author, s.metadata, #[], false⟩ := by
  have hlead : Preamble.ofLines (s.leadLines.map lineOf) = ⟨s.title, s.author, s.metadata, #[], false⟩ := by
    rw [leadLines, List.map_append, Preamble.ofLines_append_blank, entryLines, Preamble.ofLines_entries h]
    intro l hl
    split at hl
    · rw [List.mem_singleton.mp hl]
      rfl
    · cases hl
  have hmoved := Preamble.ofLines_relocate .erase ls
  rw [hls, hlead] at hmoved
  generalize Preamble.ofLines ls = preamble at hmoved
  obtain ⟨title, author, metadata, incidents, closed⟩ := preamble
  simp only [Preamble.relocate, Preamble.mk.injEq] at hmoved
  obtain ⟨rfl, rfl, rfl, hincidents, rfl⟩ := hmoved
  rw [Array.map_eq_empty_iff.mp hincidents.symm]

/-- **A story that lacks no marker is read back from its canonical text,** up to what is nested too deep in it. -/
theorem ofTokens_render {Q : Expr → Prop} (hQ : ∀ e, Q e → e.isWritten = true ∧ e.Fits) {s : Story}
    (h : s.Spellable Q) (hwhole : ∀ p ∈ s.passages, p.IsWhole) :
    (Story.ofTokens (Lexed.ofSource s.render).tokens).story.relocate .erase = s.settle.prune ∧
      (Story.ofTokens (Lexed.ofSource s.render).tokens).incidents = s.deepPlaces.map .deepAt := by
  have hwritten : ∀ e, Q e → e.isWritten = true := fun e he => (hQ e he).1
  obtain ⟨stop, parts, hlayout, hpassages, hincidents⟩ := Passage.exists_sections hQ
    (forall_mem_sorted h.passages) (forall_mem_sorted hwhole) (Position.start.advance s.lead)
    (Position.start.advance s.chars)
  obtain ⟨ls, hlined, hls⟩ := (stands_lead h).exists_lined s.areInner_leadLines .start
  have houtline : Outline.ofTokens (Lexed.ofSource s.render).tokens = ⟨ls ++ [⟨[], stop⟩], parts⟩ := by
    rw [outline_render hwritten h]
    nth_rewrite 2 [chars_eq]
    rw [(stands_lead h).tokensAt_append, Outline.Tail.pushAll_append, hlayout]
    exact hlined.toOutline_pushAll _
  have hblank : ∀ l ∈ [Line.mk [] stop], l.holds = false := by
    intro l hl
    rw [List.mem_singleton.mp hl]
    rfl
  have hpreamble := Preamble.ofLines_append_blank ls hblank
  rw [ofLines_lead h hls] at hpreamble
  rw [Story.ofTokens, houtline, Outline.read, hpreamble]
  constructor
  · rw [Story.relocate, hpassages, prune, settle, List.map_map]
    rfl
  · exact hincidents

end Story

/-- **Skipping a conditional that is nested too deep agrees with reading it.** Let the words of a story be
writable, all its conditionals be closed and all its markers belong to one; the conditionals may stand in one
another to any depth. Then its canonical text is read as the story it would be read back as, without the
conditionals that stand inside `maxNesting` others and with everything else. One error is reported for each of
them, in the order in which they are written, at the place of its brace. -/
theorem Story.ofTokens_render_prune {s : Story} (h : s.Spellable Expr.Writable)
    (hwhole : ∀ p ∈ s.passages, p.IsWhole) :
    let reading := Story.ofTokens (Lexed.ofSource s.render).tokens
    reading.story.relocate .erase = s.settle.prune ∧
      reading.errors = s.deepPlaces.map (fun place => ⟨.nestingTooDeep, place⟩) ∧
      ∀ place ∈ s.deepPlaces, BraceAt s.chars .start place := by
  have hfits : ∀ e : Expr, e.Writable → e.isWritten = true ∧ e.Fits :=
    fun e he => ⟨he.1, Expr.fits_of_depth_le he.2⟩
  obtain ⟨hstory, hincidents⟩ := ofTokens_render hfits h hwhole
  refine ⟨hstory, ?_, s.braceAt_deepPlaces⟩
  rw [Reading.errors, hincidents, List.filterMap_map]
  show s.deepPlaces.filterMap (fun place => some (SyntaxError.mk .nestingTooDeep place)) = _
  rw [List.filterMap_eq_map']

/-- Inside as many conditionals as may stand in one another there are a line of prose and two conditionals more.
The first of them has two branches and holds a choice with a guard, a conditional and prose that looks like a
marker. The two are gone and reported, and what they hold is passed over. -/
theorem Story.ofTokens_render_prune_well :
    let inside (guard : Bool) (ns : List Node) : List Node :=
      [.conditional (.literal (.bool guard)) ns none .unplaced (some .unplaced)]
    let choice : Node := .choice ⟨"Climb", some (.literal (.bool true)), some "Well", .unplaced⟩
    let deep : Node :=
      .conditional (.literal (.bool true)) (choice :: inside true [.text "\x7b/\x7d" .unplaced])
        (some [.text "out" .unplaced]) .unplaced (some .unplaced)
    let bottom : List Node := .text "in" .unplaced :: deep :: inside false []
    let s : Story := ⟨none, none, .empty, [⟨"Well", .empty, Nat.repeat (inside true) 128 bottom, .unplaced⟩]⟩
    s.Spellable Expr.Writable ∧ (∀ p ∈ s.passages, p.IsWhole) ∧
      (Story.ofTokens (Lexed.ofSource s.render).tokens).story.relocate .erase
        = ⟨none, none, .empty,
            [⟨"Well", .empty, Nat.repeat (inside true) 128 [.text "in" .unplaced], .unplaced⟩]⟩ ∧
      (Story.ofTokens (Lexed.ofSource s.render).tokens).errors
        = [⟨.nestingTooDeep, ⟨131, 257⟩⟩, ⟨.nestingTooDeep, ⟨139, 257⟩⟩] := by
  intro inside choice deep bottom s
  have hspellable : s.Spellable Expr.Writable := by decide +kernel
  have hwhole : ∀ p ∈ s.passages, p.IsWhole := by decide +kernel
  have hsorted : s.sorted = s.passages := List.mergeSort_singleton _
  have hpruned : ∀ n, n ≤ maxNesting →
      Node.pruneAll (maxNesting - n) (Node.settleAll (Nat.repeat (inside true) n bottom))
        = Nat.repeat (inside true) n [.text "in" .unplaced] := by
    intro n
    induction n with
    | zero => exact fun _ => rfl
    | succ n ih =>
      intro hn
      have hlevel : maxNesting - (n + 1) + 1 = maxNesting - n := by omega
      have hbelow := Node.pruneAll_settle_conditional (show maxNesting - (n + 1) < maxNesting by omega)
        (.literal (.bool true)) (Nat.repeat (inside true) n bottom) none .unplaced .unplaced
      rw [hlevel, ih (by omega)] at hbelow
      exact hbelow
  obtain ⟨hstory, herrors, -⟩ := Story.ofTokens_render_prune hspellable hwhole
  refine ⟨hspellable, hwhole, hstory.trans ?_, herrors.trans ?_⟩
  · rw [Story.prune, Story.settle, hsorted]
    exact congrArg (fun ns => Story.mk none none .empty [⟨"Well", .empty, ns, .unplaced⟩])
      (hpruned 128 (by decide))
  · rw [Story.deepPlaces, Story.lead, hsorted]
    decide +kernel

end Gamebook
