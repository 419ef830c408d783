/-
# Gamebook.Proofs.Reading.Assembly — what is put together from lines can be written

A block can be written if its statements may stand in it and are no higher than the nesting limit allows at
its depth (`Node.Block`). While a body is put together, all its open blocks are such blocks with nothing
left open in them (`Assembly.Fine`). Each line keeps this, whatever errors are on it. At the end of the
passage the open conditionals are closed from the inside out, each the last statement of its block: the
body is shaped and low enough to be read back (`Assembly.block_body`).
-/
import Gamebook.Proofs.Reading.Statement
import Gamebook.Proofs.Spelling.Assembly

namespace Gamebook

/-! ## Blocks -/

namespace Node

/-- A block inside `depth` conditionals that can be written. If it is the last one of its passage, it may
end in a conditional that is left open. -/
structure Block (role : BlockRole) (last : Bool) (depth : Nat) (ns : List Node) : Prop where
  writable : Everywhere (Writable Expr.Legible) ns
  shaped : shapedAll role last ns = true
  height : depth + heightAll ns ≤ maxNesting

theorem height_of_leaf {n : Node} (h : n.isConditional = false) : n.height = 0 := by
  cases n with
  | conditional => cases h
  | _ => simp [height]

theorem height_conditional (guard : Expr) (body : List Node) (otherwise : Option (List Node))
    (opening : Position) (closing : Option Position) :
    (conditional guard body otherwise opening closing).height
      = max (heightAll body) (heightAll (otherwise.getD [])) + 1 := by
  cases otherwise with
  | none => rw [height, Option.getD_none, heightAll, Nat.max_zero]
  | some branch => rw [height, Option.getD_some]

theorem heightAll_append (ns ms : List Node) :
    heightAll (ns ++ ms) = max (heightAll ns) (heightAll ms) := by
  induction ns with
  | nil => rw [List.nil_append, heightAll, Nat.zero_max]
  | cons n ns ih => rw [List.cons_append, heightAll, ih, heightAll, Nat.max_assoc]

/-- A statement with nothing left open may stand last as well. -/
theorem shaped_of_closed {n : Node} {role : BlockRole} (h : n.shaped role false = true) (last : Bool) :
    n.shaped role last = true := by
  cases last with
  | false => exact h
  | true =>
    cases n with
    | conditional guard body otherwise opening closing =>
      cases otherwise with
      | none =>
        rw [shaped, Bool.or_false, Bool.and_eq_true] at h
        rw [shaped, Bool.or_true, Bool.true_and]
        exact h.2
      | some branch =>
        rw [shaped, Bool.or_false, Bool.and_eq_true, Bool.and_eq_true] at h
        rw [shaped, Bool.or_true, Bool.true_and, h.1.2, h.2]
        rfl
    | stray marker pos => cases marker <;> exact h
    | _ => rfl

theorem shapedAll_of_closed {ns : List Node} {role : BlockRole} (h : shapedAll role false ns = true)
    (last : Bool) : shapedAll role last ns = true := by
  induction ns with
  | nil => rw [shapedAll]
  | cons n ns ih =>
    rw [shapedAll, Bool.false_and, Bool.and_eq_true] at h
    rw [shapedAll, shaped_of_closed h.1, ih h.2]
    rfl

/-- After statements with nothing left open, others stand as they would alone. -/
theorem shapedAll_append {ns ms : List Node} {role : BlockRole} {last : Bool}
    (hns : shapedAll role false ns = true) (hms : shapedAll role last ms = true) :
    shapedAll role last (ns ++ ms) = true := by
  induction ns with
  | nil => exact hms
  | cons n ns ih =>
    rw [shapedAll, Bool.false_and, Bool.and_eq_true] at hns
    rw [List.cons_append, shapedAll, shaped_of_closed hns.1, ih hns.2]
    rfl

section

variable {role : BlockRole} {last : Bool} {depth : Nat} {ns ms : List Node}

theorem block_nil (role : BlockRole) (last : Bool) (hdepth : depth ≤ maxNesting) :
    Block role last depth [] := by
  refine ⟨everywhere_nil, ?_, ?_⟩
  · rw [shapedAll]
  · rw [heightAll]
    exact hdepth

/-- A block with nothing left open may be the last one. -/
theorem Block.of_closed (h : Block role false depth ns) (last : Bool) : Block role last depth ns :=
  ⟨h.writable, shapedAll_of_closed h.shaped last, h.height⟩

theorem Block.append (hns : Block role false depth ns) (hms : Block role last depth ms) :
    Block role last depth (ns ++ ms) := by
  refine ⟨everywhere_append.mpr ⟨hns.writable, hms.writable⟩, shapedAll_append hns.shaped hms.shaped, ?_⟩
  have hfirst := hns.height
  have hsecond := hms.height
  rw [heightAll_append]
  omega

/-- A statement that is no conditional is a block if it may stand there. -/
theorem block_leaf {n : Node} (hn : n.isConditional = false) (hwritable : n.Writable Expr.Legible)
    (hshaped : n.shaped role false = true) (hdepth : depth ≤ maxNesting) : Block role false depth [n] := by
  refine ⟨(everywhere_leaf hn).mpr hwritable, ?_, ?_⟩
  · rw [shapedAll, shapedAll, Bool.false_and, hshaped]
    rfl
  · rw [heightAll, heightAll, height_of_leaf hn, Nat.max_zero]
    exact hdepth

end

end Node

/-! ## Open conditionals -/

namespace Assembly

/-- The blocks around the innermost one can be written with nothing left open, and so can the guards. -/
def AllFine : List Frame → Prop
  | [] => True
  | f :: fs =>
    f.guard.Legible ∧ fs.length < maxNesting ∧ Node.Block (innermost fs) false fs.length f.before.toList ∧
      (∀ body ∈ f.first, Node.Block .first false (fs.length + 1) body.toList) ∧ AllFine fs

/-- The open blocks can be written, with nothing left open in them. -/
structure Fine (a : Assembly) : Prop where
  frames : AllFine a.frames
  nodes : Node.Block a.role false a.frames.length a.nodes.toList

theorem AllFine.length_le {fs : List Frame} (h : AllFine fs) : fs.length ≤ maxNesting := by
  cases fs with
  | nil => exact Nat.zero_le _
  | cons f fs => exact h.2.1

/-- The conditional of a frame is written in the block around it. If it has no closing marker, both its
block and the one around it are the last of the passage. -/
theorem block_toNode {f : Frame} {fs : List Frame} {nodes : Array Node} (closing : Option Position)
    (hfs : AllFine (f :: fs))
    (h : Node.Block (innermost (f :: fs)) closing.isNone (fs.length + 1) nodes.toList) :
    Node.Block (innermost fs) closing.isNone fs.length [f.toNode nodes closing] := by
  obtain ⟨hguard, hdepth, -, hfirst, -⟩ := hfs
  have hclosing : (closing.isSome || closing.isNone) = true := by cases closing <;> rfl
  have hshaped := h.shaped
  have hheight := h.height
  rw [innermost] at hshaped
  rw [Frame.toNode]
  cases hf : f.first with
  | none =>
    -- The block is the first branch.
    rw [hf, Option.isNone_none, if_pos rfl] at hshaped
    refine ⟨Node.everywhere_conditional.mpr ⟨hguard, h.writable, fun branch hbranch => ?_⟩, ?_, ?_⟩
    · cases hbranch
    · simp [Node.shapedAll, Node.shaped, hclosing, hshaped]
    · rw [Node.heightAll, Node.heightAll, Node.height]
      omega
  | some body =>
    -- The first branch is complete, and the block is the second one.
    rw [hf, Option.isNone_some, if_neg Bool.false_ne_true] at hshaped
    have hbody := hfirst body hf
    refine ⟨Node.everywhere_conditional.mpr ⟨hguard, hbody.writable, fun branch hbranch => ?_⟩, ?_, ?_⟩
    · rw [← Option.some.inj hbranch]
      exact h.writable
    · simp [Node.shapedAll, Node.shaped, hclosing, hshaped, hbody.shaped]
    · have hheight' := hbody.height
      rw [Node.heightAll, Node.heightAll, Node.height]
      omega

variable {a : Assembly}

theorem Fine.push (h : a.Fine) {n : Node} (hn : Node.Block a.role false a.frames.length [n]) :
    (a.push n).Fine := by
  refine ⟨h.frames, ?_⟩
  show Node.Block a.role false a.frames.length (a.nodes.push n).toList
  rw [Array.toList_push]
  exact h.nodes.append hn

theorem Fine.note (h : a.Fine) (i : Incident) : (a.note i).Fine := ⟨h.frames, h.nodes⟩

theorem Fine.openBlock (h : a.Fine) (hdepth : a.frames.length < maxNesting) {guard : Expr}
    (hguard : guard.Legible) (pos : Position) : (a.openBlock guard pos).Fine := by
  refine ⟨⟨hguard, hdepth, h.nodes, fun body hbody => ?_, h.frames⟩, Node.block_nil _ _ hdepth⟩
  cases hbody

/-- The innermost conditional is closed. -/
theorem Fine.closeBlock (h : a.Fine) (pos : Position) : (a.closeBlock (some pos)).Fine := by
  rw [Assembly.closeBlock]
  split
  · exact h
  · next f fs hframes =>
    have hfs : AllFine (f :: fs) := hframes ▸ h.frames
    have hnodes := h.nodes
    rw [role, hframes] at hnodes
    refine ⟨hfs.2.2.2.2, ?_⟩
    show Node.Block (innermost fs) false fs.length (f.before.push _).toList
    rw [Array.toList_push]
    exact hfs.2.2.1.append (block_toNode (some pos) hfs hnodes)

/-- A marker finds its conditional, or stands where it has none. -/
theorem Fine.mark (h : a.Fine) (m : Marker) (pos : Position) : (a.mark m pos).Fine := by
  have hstray : (Node.stray m pos).shaped a.role false = true → (a.push (.stray m pos)).Fine := by
    intro hshaped
    exact h.push (Node.block_leaf rfl trivial hshaped h.frames.length_le)
  rw [role] at hstray
  cases hframes : a.frames with
  | nil =>
    rw [hframes] at hstray
    have hmark : a.mark m pos = a.push (.stray m pos) := by
      simp [Assembly.mark, hframes]
    rw [hmark]
    exact hstray (by cases m <;> rfl)
  | cons f fs =>
    cases m with
    | close =>
      have hmark : a.mark .close pos = a.closeBlock (some pos) := by
        simp [Assembly.mark, hframes]
      rw [hmark]
      exact h.closeBlock pos
    | otherwise =>
      have hfs : AllFine (f :: fs) := hframes ▸ h.frames
      have hnodes := h.nodes
      rw [role, hframes] at hnodes
      cases hfirst : f.first with
      | none =>
        -- The block so far becomes the first branch, and a new one is opened.
        have hmark : a.mark .otherwise pos
            = { a with nodes := #[], frames := { f with first := some a.nodes } :: fs } := by
          simp [Assembly.mark, hframes, hfirst]
        rw [hmark]
        rw [innermost, hfirst, Option.isNone_none, if_pos rfl] at hnodes
        obtain ⟨hguard, hdepth, hbefore, -, hrest⟩ := hfs
        refine ⟨⟨hguard, hdepth, hbefore, fun body hbody => ?_, hrest⟩, Node.block_nil _ _ hdepth⟩
        rw [← Option.some.inj hbody]
        exact hnodes
      | some body =>
        have hmark : a.mark .otherwise pos = a.push (.stray .otherwise pos) := by
          simp [Assembly.mark, hframes, hfirst]
        rw [hmark]
        refine hstray ?_
        rw [hframes, innermost, hfirst]
        rfl

/-! ## Lines -/

variable {stop : LineEnd} {t : Token} {ts : List Token}

theorem Fine.markerLine (h : a.Fine) (m : Marker) : (a.markerLine stop m t ts).Fine := by
  rw [Assembly.markerLine]
  split
  · exact h.mark m t.pos
  · exact (h.note _).mark m t.pos

theorem legible_false : (Expr.literal (.bool false)).Legible :=
  ⟨fun _ => rfl, rfl, Nat.zero_le _⟩

theorem Fine.conditionLine (h : a.Fine) (hdepth : a.frames.length < maxNesting)
    (hts : Token.Orderly ts) : (a.conditionLine stop t ts).Fine := by
  rw [Assembly.conditionLine]
  split
  · next guard hread => exact h.openBlock hdepth (Node.readCondition_legible hts hread) t.pos
  · exact (h.note _).openBlock hdepth legible_false t.pos

theorem Fine.statementLine (h : a.Fine) (hts : Token.Orderly (t :: ts)) :
    (a.statementLine stop t ts).Fine := by
  rw [Assembly.statementLine]
  split
  · next n hread =>
    have hplain := Node.read_plain hts hread
    exact h.push (Node.block_leaf hplain.conditional hplain.writable (hplain.shaped a.role false)
      h.frames.length_le)
  · exact h.note _

theorem Fine.readLine (h : a.Fine) (hts : Token.Orderly ts) : (a.readLine stop ts).Fine := by
  refine readLine_induction (motive := fun a ts r => a.Fine → Token.Orderly ts → r.Fine)
    ?nil ?marker ?condition ?statement ?skipped ?resumed a ts h hts
  case nil => exact fun a h _ => h
  case marker => exact fun a t ts m _ h _ => h.markerLine m
  case condition => exact fun a t ts _ hdepth h hts => h.conditionLine hdepth hts.tail
  case statement => exact fun a t ts _ _ h hts => h.statementLine hts
  case skipped => exact fun a t ts waiting _ _ _ h _ => ⟨h.frames, h.nodes⟩
  case resumed =>
    intro a t ts rest _ _ hskip ih h hts
    exact ih (h.note _) (hts.of_suffix (suffix_of_skip hskip))

/-- Every line keeps the open blocks fine. -/
theorem Fine.line (h : a.Fine) {l : Line} (hl : Token.Orderly l.tokens) : (a.line l).Fine := by
  rw [Assembly.line]
  split
  · exact h.readLine hl
  · split
    · exact ⟨h.frames, h.nodes⟩
    · next rest hskip =>
      have hfine : Fine { a with skipping := none } := ⟨h.frames, h.nodes⟩
      exact hfine.readLine (hl.of_suffix (suffix_of_skip hskip))

theorem fine_ofLines {ls : List Line} (hls : ∀ l ∈ ls, Token.Orderly l.tokens) : (ofLines ls).Fine := by
  refine List.foldlRecOn ls Assembly.line (b := Assembly.empty) ?_ fun a ha l hl => ha.line (hls l hl)
  exact ⟨trivial, Node.block_nil _ _ (Nat.zero_le _)⟩

/-! ## The end of the passage -/

/-- What is still open is closed from the inside out, always as the last statement of its block. -/
theorem block_closeAll {nodes : Array Node} {fs : List Frame} (hfs : AllFine fs)
    (h : Node.Block (innermost fs) true fs.length nodes.toList) :
    Node.Block .body true 0 (closeAll nodes fs).toList := by
  induction fs generalizing nodes with
  | nil => exact h
  | cons f fs ih =>
    have hnode : Node.Block (innermost fs) true fs.length [f.toNode nodes none] := block_toNode none hfs h
    rw [closeAll]
    refine ih hfs.2.2.2.2 ?_
    rw [Array.toList_push]
    exact hfs.2.2.1.append hnode

/-- **The body that is put together from orderly lines can be written.** -/
theorem block_body {ls : List Line} (hls : ∀ l ∈ ls, Token.Orderly l.tokens) :
    Node.Block .body true 0 (ofLines ls).body := by
  have hfine := fine_ofLines hls
  exact block_closeAll hfine.frames (hfine.nodes.of_closed true)

end Assembly

end Gamebook
