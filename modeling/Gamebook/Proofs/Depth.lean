/-
# Gamebook.Proofs.Depth — how deep the conditionals of a story are nested

Whatever tokens a story is read from, a conditional stands inside at most 127 others. The statements inside
exactly so many conditionals form a layer of the body (`Node.layer`), and there is no conditional in a layer
below the height of the body (`Node.lt_heightAll_of_mem_layer`).

While a body is put together, its height is that of the body that would result if everything open were closed
at once. Of all that a line can do, only opening a conditional changes it, and then to at most one more than the
number of conditionals that are open (`Assembly.heightAll_body_openBlock`). A conditional is opened only inside
fewer than `maxNesting` others, so no body gets higher than that (`Story.heightAll_le_of_mem_passages`).
-/
import Gamebook.Proofs.Reading.Assembly
import Gamebook.Proofs.Reading.Everywhere

namespace Gamebook

/-! ## Layers -/

namespace Node

/-- The statements right inside a statement, in either branch. -/
def inside : Node → List Node
  | conditional _ body otherwise _ _ => body ++ otherwise.getD []
  | _ => []

/-- The statements of a body that stand inside exactly `depth` conditionals. -/
def layer : (depth : Nat) → List Node → List Node
  | 0, ns => ns
  | depth + 1, ns => layer depth (ns.flatMap inside)

theorem heightAll_inside (n : Node) : heightAll n.inside = n.height - 1 := by
  cases n with
  | conditional guard body otherwise opening closing =>
    rw [inside, heightAll_append, height_conditional, Nat.add_sub_cancel]
  | _ => simp [inside, heightAll, height]

theorem heightAll_flatMap_inside (ns : List Node) : heightAll (ns.flatMap inside) = heightAll ns - 1 := by
  induction ns with
  | nil => rw [List.flatMap_nil, heightAll]
  | cons n ns ih =>
    rw [List.flatMap_cons, heightAll_append, heightAll_inside, ih, heightAll]
    omega

theorem height_le_heightAll {n : Node} {ns : List Node} (h : n ∈ ns) : n.height ≤ heightAll ns := by
  induction ns with
  | nil => cases h
  | cons m ns ih =>
    rw [heightAll]
    rcases List.mem_cons.mp h with rfl | h
    · exact Nat.le_max_left _ _
    · exact Nat.le_trans (ih h) (Nat.le_max_right _ _)

/-- **A body is higher than the number of conditionals around any conditional in it.** -/
theorem lt_heightAll_of_mem_layer {n : Node} {depth : Nat} {ns : List Node} (h : n ∈ layer depth ns)
    (hn : n.isConditional = true) : depth < heightAll ns := by
  induction depth generalizing ns with
  | zero =>
    have hheight : 0 < n.height := by
      cases n with
      | conditional =>
        rw [height_conditional]
        exact Nat.succ_pos _
      | _ => cases hn
    exact Nat.lt_of_lt_of_le hheight (height_le_heightAll h)
  | succ depth ih =>
    have hinner := ih h
    rw [heightAll_flatMap_inside] at hinner
    omega

end Node

/-! ## Open conditionals -/

namespace Assembly

/-- How high a conditional with these branches will be: the finished one, and one of the given height. -/
def branchHeight (f : Frame) (height : Nat) : Nat :=
  max (Node.heightAll (f.first.getD #[]).toList) height + 1

/-- How high the body will be when the open conditionals are closed around a block of the given height. -/
def heightOver (height : Nat) : List Frame → Nat
  | [] => height
  | f :: fs => heightOver (max (Node.heightAll f.before.toList) (branchHeight f height)) fs

theorem height_toNode (f : Frame) (nodes : Array Node) (closing : Option Position) :
    (f.toNode nodes closing).height = branchHeight f (Node.heightAll nodes.toList) := by
  rw [Frame.toNode, branchHeight]
  cases f.first with
  | none => rw [Node.height_conditional, Option.getD_none, Option.getD_none, Node.heightAll, Nat.zero_max,
      Nat.max_zero]
  | some body => rw [Node.height_conditional, Option.getD_some, Option.getD_some]

theorem heightAll_push (nodes : Array Node) (n : Node) :
    Node.heightAll (nodes.push n).toList = max (Node.heightAll nodes.toList) n.height := by
  rw [Array.toList_push, Node.heightAll_append, Node.heightAll, Node.heightAll, Nat.max_zero]

theorem heightAll_closeAll (nodes : Array Node) (fs : List Frame) :
    Node.heightAll (closeAll nodes fs).toList = heightOver (Node.heightAll nodes.toList) fs := by
  induction fs generalizing nodes with
  | nil => rfl
  | cons f fs ih => rw [closeAll, ih, heightAll_push, height_toNode, heightOver]

/-- The innermost block counts with the conditionals around it. -/
theorem heightOver_max (height more : Nat) (fs : List Frame) :
    heightOver (max height more) fs = max (heightOver height fs) (more + fs.length) := by
  induction fs generalizing height more with
  | nil => rfl
  | cons f fs ih =>
    have hsplit : max (Node.heightAll f.before.toList) (branchHeight f (max height more))
        = max (max (Node.heightAll f.before.toList) (branchHeight f height)) (more + 1) := by
      rw [branchHeight, branchHeight]
      omega
    rw [heightOver, hsplit, ih, heightOver, List.length_cons, Nat.add_assoc, Nat.add_comm 1]

theorem heightAll_body (a : Assembly) :
    Node.heightAll a.body = heightOver (Node.heightAll a.nodes.toList) a.frames :=
  heightAll_closeAll a.nodes a.frames

variable {a : Assembly}

theorem heightAll_body_push {n : Node} (hn : n.isConditional = false) :
    Node.heightAll (a.push n).body = Node.heightAll a.body := by
  rw [heightAll_body, heightAll_body]
  show heightOver (Node.heightAll (a.nodes.push n).toList) a.frames = _
  rw [heightAll_push, Node.height_of_leaf hn, Nat.max_zero]

/-- **Opening a conditional makes the body as high as there are conditionals open then,** if it is not so high
already. -/
theorem heightAll_body_openBlock (guard : Expr) (pos : Position) :
    Node.heightAll (a.openBlock guard pos).body = max (Node.heightAll a.body) (a.frames.length + 1) := by
  rw [heightAll_body, heightAll_body]
  show heightOver 0 (⟨guard, pos, a.nodes, none⟩ :: a.frames) = _
  have hempty : branchHeight ⟨guard, pos, a.nodes, none⟩ 0 = 1 := rfl
  rw [heightOver, hempty, heightOver_max, Nat.add_comm 1]

theorem heightAll_body_closeBlock (closing : Option Position) :
    Node.heightAll (a.closeBlock closing).body = Node.heightAll a.body := by
  rw [closeBlock]
  split
  · rfl
  · next f fs hframes =>
    rw [heightAll_body, heightAll_body, hframes, heightOver, heightAll_push, height_toNode]

theorem heightAll_body_mark (m : Marker) (pos : Position) :
    Node.heightAll (a.mark m pos).body = Node.heightAll a.body := by
  unfold mark
  split
  · exact heightAll_body_push rfl
  · exact heightAll_body_closeBlock (some pos)
  · next f fs hframes =>
    split
    · next hfirst =>
      -- The block so far becomes the first branch, and the second one is empty.
      have hbranch : branchHeight { f with first := some a.nodes } 0
          = branchHeight f (Node.heightAll a.nodes.toList) := by
        rw [branchHeight, branchHeight, hfirst, Option.getD_some, Option.getD_none, Nat.max_zero]
        exact congrArg (· + 1) (Nat.zero_max _).symm
      rw [heightAll_body, heightAll_body, hframes]
      exact congrArg (fun height => heightOver (max (Node.heightAll f.before.toList) height) fs) hbranch
    · exact heightAll_body_push rfl

/-! ## Lines -/

variable {stop : LineEnd} {t : Token} {ts : List Token}

theorem heightAll_body_markerLine (m : Marker) :
    Node.heightAll (a.markerLine stop m t ts).body = Node.heightAll a.body := by
  rw [markerLine]
  split <;> exact heightAll_body_mark m t.pos

theorem heightAll_body_conditionLine :
    Node.heightAll (a.conditionLine stop t ts).body = max (Node.heightAll a.body) (a.frames.length + 1) := by
  rw [conditionLine]
  split <;> exact heightAll_body_openBlock _ t.pos

theorem heightAll_body_statementLine :
    Node.heightAll (a.statementLine stop t ts).body = Node.heightAll a.body := by
  rw [statementLine]
  split
  · next n hread => exact heightAll_body_push (Node.isConditional_of_read hread)
  · rfl

theorem heightAll_body_readLine_le (h : Node.heightAll a.body ≤ maxNesting) :
    Node.heightAll (a.readLine stop ts).body ≤ maxNesting := by
  refine readLine_induction
    (motive := fun a _ r => Node.heightAll a.body ≤ maxNesting → Node.heightAll r.body ≤ maxNesting)
    ?nil ?marker ?condition ?statement ?skipped ?resumed a ts h
  case nil => exact fun a h => h
  case marker =>
    intro a t ts m _ h
    rw [heightAll_body_markerLine]
    exact h
  case condition =>
    intro a t ts _ hdepth h
    rw [heightAll_body_conditionLine]
    exact Nat.max_le.mpr ⟨h, hdepth⟩
  case statement =>
    intro a t ts _ _ h
    rw [heightAll_body_statementLine]
    exact h
  case skipped => exact fun a t ts waiting _ _ _ h => h
  case resumed => exact fun a t ts rest _ _ _ ih h => ih h

/-- Every line keeps the body low. -/
theorem heightAll_body_line_le (h : Node.heightAll a.body ≤ maxNesting) (l : Line) :
    Node.heightAll (a.line l).body ≤ maxNesting := by
  rw [line]
  split
  · exact heightAll_body_readLine_le h
  · split
    · exact h
    · exact heightAll_body_readLine_le h

theorem heightAll_body_ofLines_le (ls : List Line) : Node.heightAll (ofLines ls).body ≤ maxNesting := by
  rw [ofLines]
  refine List.foldlRecOn ls Assembly.line (b := Assembly.empty)
    (motive := fun a => Node.heightAll a.body ≤ maxNesting) ?_ fun a ha l _ => heightAll_body_line_le ha l
  exact Nat.zero_le _

end Assembly

/-- **No body that is read is higher than the limit,** whatever the tokens. -/
theorem Story.heightAll_le_of_mem_passages (tokens : List Token) {p : Passage}
    (hp : p ∈ (Story.ofTokens tokens).story.passages) : Node.heightAll p.body ≤ maxNesting := by
  obtain ⟨s, -, hpassage⟩ := List.mem_filterMap.mp hp
  obtain ⟨name, -, rfl⟩ := Option.map_eq_some_iff.mp hpassage
  exact Assembly.heightAll_body_ofLines_le s.body

end Gamebook
