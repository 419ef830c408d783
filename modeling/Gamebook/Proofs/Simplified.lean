/-
# Gamebook.Proofs.Simplified — a simplified story survives being written

Simplifying looks neither at places nor at the ends of texts, so it makes no difference whether a story is
simplified before it is settled or after (`Story.simplify_settle`). A simplified story is not writable in
the sense of `Story.Writable`, as it may hold negative literals; with its signs as operators it is, and it
has the same text (`Story.Writable.render_signed_simplify`). That is the story which is read back, and
simplifying it takes the signs back.

A source without errors is asked for, and it is needed: the branch that takes the place of a conditional
may bring a marker without a conditional into a block where another conditional takes it for its own.
-/
import Gamebook.Proofs.Generation
import Gamebook.Proofs.RoundTrip
import Gamebook.Proofs.Signs
import Gamebook.Proofs.Stability

namespace Gamebook

/-! ## Simplifying and moving -/

section

variable (f : Position → Position)

theorem Expr.foldUnary_relocate (op : UnaryOp) (e : Expr) :
    foldUnary op (e.relocate f) = (foldUnary op e).relocate f := by
  cases e with
  | literal v =>
    simp only [foldUnary, Expr.relocate, literal?, Option.bind_some]
    cases Literal.unary? op v <;> rfl
  | _ => rfl

theorem Expr.foldBinary_relocate (op : BinaryOp) (l r : Expr) :
    foldBinary op (l.relocate f) (r.relocate f) = (foldBinary op l r).relocate f := by
  cases l with
  | literal a =>
    simp only [foldBinary, Expr.relocate]
    cases decided? op (literal a) with
    | some b => rfl
    | none =>
      cases r with
      | literal b =>
        simp only [Expr.relocate]
        cases Literal.binary? op a b <;> rfl
      | _ => rfl
  | _ => cases op <;> rfl

theorem Expr.fold_relocate (e : Expr) : (e.relocate f).fold = e.fold.relocate f := by
  induction e with
  | literal v => rfl
  | var name pos => rfl
  | unary op e ih => rw [Expr.relocate, fold, ih, foldUnary_relocate, fold]
  | binary op l r ihl ihr => rw [Expr.relocate, fold, ihl, ihr, foldBinary_relocate, fold]

theorem Expr.isTruth_relocate (e : Expr) : (e.relocate f).isTruth = e.isTruth := by
  cases e <;> rfl

/-- A choice with a moved guard stays or goes like the choice itself, whatever else has changed in it. -/
theorem Choice.simplify?_moved {c c' : Choice} (h : c'.guard = c.guard.map (Expr.relocate f)) :
    c'.simplify? = c.simplify?.map fun d => { c' with guard := d.guard.map (Expr.relocate f) } := by
  have hfold : c'.guard.map Expr.fold = (c.guard.map Expr.fold).map (Expr.relocate f) := by
    rw [h, Option.map_map, Option.map_map]
    congr 1
    funext e
    exact Expr.fold_relocate f e
  unfold Choice.simplify?
  rw [hfold]
  cases c.guard.map Expr.fold with
  | none => rfl
  | some e =>
    cases e with
    | literal v =>
      cases v with
      | bool b => cases b <;> rfl
      | _ => rfl
    | _ => rfl

end

namespace Node

theorem simplifyAll_append (ns ms : List Node) :
    simplifyAll (ns ++ ms) = simplifyAll ns ++ simplifyAll ms := by
  induction ns with
  | nil => rfl
  | cons n ns ih => rw [List.cons_append, simplifyAll, ih, simplifyAll, List.append_assoc]

theorem simplifyAll_singleton (n : Node) : simplifyAll [n] = n.simplify := by
  rw [simplifyAll, simplifyAll, List.append_nil]

/-- A change of bodies that goes statement by statement, keeps every conditional with its guard moved, and
of the other statements nothing that simplifying looks at. -/
structure Moves (f : Position → Position) (change : List Node → List Node) : Prop where
  nil : change [] = []
  cons : ∀ n ns, change (n :: ns) = change [n] ++ change ns
  conditional : ∀ guard body otherwise opening closing,
    change [.conditional guard body otherwise opening closing]
      = [.conditional (guard.relocate f) (change body) (otherwise.map change) (f opening) (closing.map f)]
  leaf : ∀ n, n.isConditional = false → simplifyAll (change [n]) = change n.simplify

section

variable {f : Position → Position} {change : List Node → List Node}

theorem Moves.append (h : Moves f change) (ns ms : List Node) :
    change (ns ++ ms) = change ns ++ change ms := by
  induction ns with
  | nil => rw [h.nil]; rfl
  | cons n ns ih => rw [List.cons_append, h.cons, ih, h.cons n ns, List.append_assoc]

/-- The same branch is selected after the change. -/
theorem Moves.select (h : Moves f change) (guard : Expr) (body : List Node)
    (otherwise : Option (List Node)) (opening : Position) (closing : Option Position) :
    select (guard.relocate f) (change body) (otherwise.map change) (f opening) (closing.map f)
      = change (select guard body otherwise opening closing) := by
  by_cases hkept : closing.isSome = true → guard.isTruth = false
  · have hkept' : (closing.map f).isSome = true → (guard.relocate f).isTruth = false := by
      rw [Option.isSome_map, Expr.isTruth_relocate]
      exact hkept
    rw [select_of_not_isTruth hkept, select_of_not_isTruth hkept', h.conditional]
  · obtain ⟨hclosed, htruth⟩ := Classical.not_imp.mp hkept
    obtain ⟨pos, rfl⟩ := Option.isSome_iff_exists.mp hclosed
    obtain ⟨b, rfl⟩ := Expr.exists_of_isTruth (eq_true_of_ne_false htruth)
    cases b with
    | true => rfl
    | false =>
      cases otherwise with
      | none => exact h.nil.symm
      | some branch => rfl

/-- **Simplifying commutes with such a change.** -/
theorem Moves.simplifyAll (h : Moves f change) (ns : List Node) :
    simplifyAll (change ns) = change (simplifyAll ns) := by
  induction ns using body_induction with
  | nil => rw [h.nil, Node.simplifyAll, h.nil]
  | leaf n ns hn ih =>
    rw [h.cons, simplifyAll_append, h.leaf n hn, ih, ← h.append, Node.simplifyAll]
  | conditional guard body otherwise opening closing ns ihBody ihBranch ih =>
    have hother : (otherwise.map change).map Node.simplifyAll
        = (otherwise.map Node.simplifyAll).map change := by
      cases otherwise with
      | none => rfl
      | some branch => exact congrArg some (ihBranch branch rfl)
    rw [h.cons, simplifyAll_append, h.conditional, simplifyAll_singleton, simplify_conditional,
      Expr.fold_relocate, ihBody, hother, h.select, ih, ← h.append, Node.simplifyAll, simplify_conditional]

end

theorem moves_relocateAll (f : Position → Position) : Moves f (relocateAll f) := by
  refine ⟨rfl, fun n ns => rfl, fun guard body otherwise opening closing => ?_, fun n hn => ?_⟩
  · cases otherwise <;> rw [relocateAll, relocateAll, relocate] <;> rfl
  · rw [relocateAll, relocateAll, simplifyAll_singleton]
    cases n with
    | conditional => cases hn
    | choice c =>
      rw [relocate, simplify, simplify, Choice.simplify?_moved f (c := c) rfl]
      rcases c.simplify?_cases with ⟨-, hc⟩ | ⟨-, hc⟩ | hc <;> rw [hc] <;> rfl
    | assignment a =>
      rw [relocate, simplify, simplify]
      simp only [Assignment.relocate, Expr.fold_relocate]
      rfl
    | _ => rfl

theorem moves_settleAll : Moves .erase settleAll := by
  refine ⟨rfl, fun n ns => ?_, fun guard body otherwise opening closing => ?_, fun n hn => ?_⟩
  · rw [settleAll, settleAll, settleAll, List.append_nil]
  · cases otherwise <;> rw [settleAll, settleAll, settle] <;> rfl
  · rw [settleAll, settleAll, List.append_nil]
    cases n with
    | conditional => cases hn
    | text content pos =>
      rw [settle, simplify, settleAll, settleAll, List.append_nil, settle]
      generalize Text.splitLines content.toList = ls
      induction ls with
      | nil => rfl
      | cons l ls ih => rw [List.map_cons, simplifyAll, ih]; rfl
    | choice c =>
      rw [settle, simplifyAll_singleton, simplify, simplify, Choice.simplify?_moved .erase (c := c) rfl]
      rcases c.simplify?_cases with ⟨-, hc⟩ | ⟨-, hc⟩ | hc <;> rw [hc] <;> rfl
    | assignment a =>
      rw [settle, simplifyAll_singleton, simplify, simplify, settleAll, settleAll, settle]
      simp only [Assignment.relocate, Expr.fold_relocate]
      rfl
    | _ => rfl

end Node

namespace Story

theorem simplify_relocate (f : Position → Position) (s : Story) :
    (s.relocate f).simplify = s.simplify.relocate f := by
  have hpassage : Passage.simplify ∘ Passage.relocate f = Passage.relocate f ∘ Passage.simplify := by
    funext p
    simp only [Function.comp_apply, Passage.simplify, Passage.relocate,
      (Node.moves_relocateAll f).simplifyAll]
  simp only [simplify, relocate, List.map_map, hpassage]

theorem simplify_settle (s : Story) : s.settle.simplify = s.simplify.settle := by
  have hpassage : Passage.simplify ∘ Passage.settle = Passage.settle ∘ Passage.simplify := by
    funext p
    simp only [Function.comp_apply, Passage.simplify, Passage.settle, Node.moves_settleAll.simplifyAll]
  have hsorted : s.simplify.sorted = s.sorted.map Passage.simplify :=
    mergeSort_map Passage.simplify (fun _ => rfl) s.entryName s.passages
  simp only [settle, hsorted, List.map_map, ← hpassage]
  simp only [simplify, List.map_map]

end Story

/-! ## Signs as operators -/

/-- The passage with the signs of its literals as operators. -/
def Passage.signed (p : Passage) : Passage := { p with body := Node.mapExprsAll Expr.signed p.body }

/-- The story with the signs of its literals as operators. -/
def Story.signed (s : Story) : Story := { s with passages := s.passages.map Passage.signed }

namespace Node

variable {g : Expr → Expr}

/-- Expressions that are written alike leave the text of a body as it is. -/
theorem charsAll_mapExprsAll {ns : List Node}
    (h : Everywhere (fun n => ∀ e ∈ n.exprs, (g e).chars = e.chars) ns) (depth : Nat) :
    charsAll depth (mapExprsAll g ns) = charsAll depth ns := by
  induction ns using body_induction generalizing depth with
  | nil => rfl
  | leaf n ns hn ih =>
    obtain ⟨hhead, htail⟩ := everywhere_cons.mp h
    rw [everywhere_leaf hn] at hhead
    have hnode : (n.mapExprs g).chars depth = n.chars depth := by
      cases n with
      | conditional => cases hn
      | choice c =>
        obtain ⟨text, guard, target, pos⟩ := c
        cases guard with
        | none => rfl
        | some e =>
          have he : (g e).chars = e.chars := hhead e (List.mem_singleton_self e)
          simp only [mapExprs, chars, Choice.chars, Option.map_some, he]
      | assignment a =>
        have ha : (g a.value).chars = a.value.chars := hhead _ (List.mem_singleton_self _)
        simp only [mapExprs, chars, Assignment.chars, ha]
      | _ => rfl
    rw [mapExprsAll, charsAll, charsAll, hnode, ih htail]
  | conditional guard body otherwise opening closing ns ihBody ihBranch ih =>
    obtain ⟨hhead, htail⟩ := everywhere_cons.mp h
    obtain ⟨hnode, hbody, hbranch⟩ := everywhere_conditional.mp hhead
    have hguard : (g guard).chars = guard.chars := hnode guard (List.mem_singleton_self _)
    rw [mapExprsAll, charsAll, charsAll, ih htail, mapExprs_conditional]
    cases otherwise with
    | none =>
      rw [Option.map_none, chars_conditional_none, chars_conditional_none, hguard, ihBody hbody]
    | some branch =>
      rw [Option.map_some, chars_conditional_some, chars_conditional_some, hguard, ihBody hbody,
        ihBranch branch rfl (hbranch branch rfl)]

end Node

/-! ## What can be written -/

/-- An expression that can be written once its signs are operators. -/
def Expr.Signable (e : Expr) : Prop := e.isSpelled = true ∧ e.signed.depth ≤ maxNesting

theorem Expr.Writable.signable_fold {e : Expr} (h : e.Writable) : e.fold.Signable :=
  ⟨isSpelled_fold h.1, Nat.le_trans (depth_signed_fold h.1) h.2⟩

theorem Expr.Signable.writable_signed {e : Expr} (h : e.Signable) : e.signed.Writable :=
  ⟨isWritten_signed h.1, h.2⟩

namespace Node

variable {Q Q' : Expr → Prop} {g : Expr → Expr}

theorem Writable.exprs {n : Node} (h : n.Writable Q) : ∀ e ∈ n.exprs, Q e := by
  intro e he
  cases n with
  | choice c => exact h.1 e (Option.mem_toList.mp he)
  | assignment a => exact List.mem_singleton.mp he ▸ h.2
  | conditional guard body otherwise opening closing => exact List.mem_singleton.mp he ▸ h
  | _ => cases he

theorem everywhere_writable_simplifyAll (hQ : ∀ e, Q e → Q' e.fold) {ns : List Node}
    (h : Everywhere (Writable Q) ns) : Everywhere (Writable Q') (simplifyAll ns) := by
  refine everywhere_simplifyAll (fun n hn hwritable => ?_) (fun _ _ _ _ _ _ _ hguard _ => hQ _ hguard) h
  cases n with
  | conditional => cases hn
  | choice c =>
    obtain ⟨hguard, htexts⟩ := hwritable
    refine everywhere_simplify_choice ⟨fun e he => absurd he (Option.not_mem_none e), htexts⟩
      ⟨fun e he => ?_, htexts⟩
    obtain ⟨e', he', rfl⟩ := Option.map_eq_some_iff.mp he
    exact hQ e' (hguard e' he')
  | assignment a => exact (everywhere_leaf rfl).mpr ⟨hwritable.1, hQ _ hwritable.2⟩
  | _ => exact (everywhere_leaf rfl).mpr hwritable

theorem everywhere_writable_mapExprsAll (hQ : ∀ e, Q e → Q' (g e)) {ns : List Node}
    (h : Everywhere (Writable Q) ns) : Everywhere (Writable Q') (mapExprsAll g ns) := by
  refine everywhere_mapExprsAll (fun n hn hwritable => ?_) (fun _ _ _ _ _ _ _ hguard => hQ _ hguard) h
  cases n with
  | conditional => cases hn
  | choice c =>
    refine ⟨fun e he => ?_, hwritable.2⟩
    obtain ⟨e', he', rfl⟩ := Option.map_eq_some_iff.mp he
    exact hQ e' (hwritable.1 e' he')
  | assignment a => exact ⟨hwritable.1, hQ _ hwritable.2⟩
  | _ => exact hwritable

theorem everywhere_isWhole_simplifyAll {ns : List Node} (h : Everywhere (fun n => n.isWhole = true) ns) :
    Everywhere (fun n => n.isWhole = true) (simplifyAll ns) := by
  refine everywhere_simplifyAll (fun n hn hwhole => ?_) (fun _ _ _ _ _ _ _ hclosed _ => hclosed) h
  cases n with
  | conditional => cases hn
  | choice c => exact everywhere_simplify_choice rfl rfl
  | stray marker pos => cases hwhole
  | _ => exact (everywhere_leaf rfl).mpr rfl

theorem everywhere_isWhole_mapExprsAll {ns : List Node} (h : Everywhere (fun n => n.isWhole = true) ns) :
    Everywhere (fun n => n.isWhole = true) (mapExprsAll g ns) := by
  refine everywhere_mapExprsAll (fun n hn hwhole => ?_) (fun _ _ _ _ _ _ _ hclosed => hclosed) h
  cases n with
  | conditional => cases hn
  | _ => exact hwhole

/-- Whole statements may stand in any block. -/
theorem shapedAll_of_isWhole {ns : List Node} (h : Everywhere (fun n => n.isWhole = true) ns)
    (role : BlockRole) (last : Bool) : shapedAll role last ns = true := by
  induction ns using body_induction generalizing role last with
  | nil => rw [shapedAll]
  | leaf n ns hn ih =>
    obtain ⟨hhead, htail⟩ := everywhere_cons.mp h
    rw [everywhere_leaf hn] at hhead
    rw [shapedAll, ih htail, Bool.and_true]
    cases n with
    | conditional => cases hn
    | stray marker pos => cases hhead
    | _ => rfl
  | conditional guard body otherwise opening closing ns ihBody ihBranch ih =>
    obtain ⟨hhead, htail⟩ := everywhere_cons.mp h
    obtain ⟨hwhole, hbody, hbranch⟩ := everywhere_conditional.mp hhead
    have hclosed : closing.isSome = true := hwhole
    rw [shapedAll, ih htail, Bool.and_true]
    cases otherwise with
    | none => rw [shaped, hclosed, ihBody hbody]; rfl
    | some branch =>
      rw [shaped, hclosed, ihBody hbody, ihBranch branch rfl (hbranch branch rfl)]
      rfl

theorem heightAll_select_le (guard : Expr) (body : List Node) (otherwise : Option (List Node))
    (opening : Position) (closing : Option Position) :
    heightAll (select guard body otherwise opening closing)
      ≤ max (heightAll body) (heightAll (otherwise.getD [])) + 1 := by
  unfold select
  split
  · omega
  · omega
  · rw [heightAll, heightAll, Nat.max_zero, height_conditional]

/-- Simplifying nests nothing deeper. -/
theorem heightAll_simplifyAll_le (ns : List Node) : heightAll (simplifyAll ns) ≤ heightAll ns := by
  induction ns using body_induction with
  | nil => exact Nat.le_refl _
  | leaf n ns hn ih =>
    have hnode : heightAll n.simplify = 0 := by
      cases n with
      | conditional => cases hn
      | choice c =>
        rw [simplify]
        split <;> simp [heightAll, height]
      | _ => simp [simplify, heightAll, height]
    rw [simplifyAll, heightAll_append, hnode, heightAll]
    omega
  | conditional guard body otherwise opening closing ns ihBody ihBranch ih =>
    have hother : heightAll ((otherwise.map simplifyAll).getD []) ≤ heightAll (otherwise.getD []) := by
      cases otherwise with
      | none => exact Nat.le_refl _
      | some branch => exact ihBranch branch rfl
    have hselect := heightAll_select_le guard.fold (simplifyAll body) (otherwise.map simplifyAll)
      opening closing
    rw [simplifyAll, heightAll_append, simplify_conditional, heightAll, height_conditional]
    omega

theorem heightAll_mapExprsAll (ns : List Node) : heightAll (mapExprsAll g ns) = heightAll ns := by
  induction ns using body_induction with
  | nil => rfl
  | leaf n ns hn ih =>
    rw [mapExprsAll, heightAll, heightAll, ih, height_of_leaf hn,
      height_of_leaf (by rw [isConditional_mapExprs, hn])]
  | conditional guard body otherwise opening closing ns ihBody ihBranch ih =>
    have hother : heightAll ((otherwise.map (mapExprsAll g)).getD []) = heightAll (otherwise.getD []) := by
      cases otherwise with
      | none => rfl
      | some branch => exact ihBranch branch rfl
    rw [mapExprsAll, heightAll, heightAll, ih, mapExprs_conditional, height_conditional,
      height_conditional, ihBody, hother]

end Node

namespace Passage

theorem Writable.signable_simplify {p : Passage} (h : p.Writable Expr.Writable) :
    Node.Everywhere (Node.Writable Expr.Signable) p.simplify.body :=
  Node.everywhere_writable_simplifyAll (fun _ he => he.signable_fold) h.body

/-- **A simplified passage can be written,** with its signs as operators. -/
theorem Writable.signed_simplify {p : Passage} (h : p.Writable Expr.Writable) (hwhole : p.IsWhole) :
    p.simplify.signed.Writable Expr.Writable := by
  have hbody := Node.everywhere_writable_mapExprsAll (fun _ he => he.writable_signed) h.signable_simplify
  have hwhole' := Node.everywhere_isWhole_mapExprsAll (g := Expr.signed)
    (Node.everywhere_isWhole_simplifyAll hwhole)
  refine ⟨h.name, h.tags, hbody, Node.shapedAll_of_isWhole hwhole' _ _, ?_⟩
  calc Node.heightAll (Node.mapExprsAll Expr.signed (Node.simplifyAll p.body))
      = Node.heightAll (Node.simplifyAll p.body) := Node.heightAll_mapExprsAll _
    _ ≤ Node.heightAll p.body := Node.heightAll_simplifyAll_le _
    _ ≤ maxNesting := h.height

theorem Writable.chars_signed_simplify {p : Passage} (h : p.Writable Expr.Writable) :
    p.simplify.signed.chars = p.simplify.chars := by
  have hsame : Node.Everywhere (fun n => ∀ e ∈ n.exprs, e.signed.chars = e.chars) p.simplify.body :=
    fun n hn e he => Expr.chars_signed ((h.signable_simplify n hn).exprs e he).1
  show p.headerChars ++ Node.charsAll 0 (Node.mapExprsAll Expr.signed p.simplify.body) = p.simplify.chars
  rw [Node.charsAll_mapExprsAll hsame]
  rfl

/-- Simplifying takes the signs back. -/
theorem Writable.simplify_signed_simplify {p : Passage} (h : p.Writable Expr.Writable) :
    p.simplify.signed.simplify = p.simplify := by
  have hsimple : Node.Everywhere Node.Simple p.simplify.body := Node.everywhere_simple_simplifyAll p.body
  have hback : Node.Everywhere (Node.FoldsBack Expr.signed) p.simplify.body :=
    fun n hn e he => Expr.fold_signed ((h.signable_simplify n hn).exprs e he).1
      ((hsimple n hn).exprs_folded e he)
  show { p with body := Node.simplifyAll (Node.mapExprsAll Expr.signed p.simplify.body) } = p.simplify
  rw [Node.simplifyAll_mapExprsAll hsimple hback]
  rfl

end Passage

namespace Story

theorem Writable.signed_simplify {s : Story} (h : s.Writable Expr.Writable)
    (hwhole : ∀ p ∈ s.passages, p.IsWhole) : s.simplify.signed.Writable Expr.Writable := by
  refine ⟨h.title, h.author, h.keys, h.values, fun p hp => ?_⟩
  obtain ⟨q, hq, rfl⟩ := List.mem_map.mp hp
  obtain ⟨r, hr, rfl⟩ := List.mem_map.mp hq
  exact (h.passages r hr).signed_simplify (hwhole r hr)

theorem Writable.render_signed_simplify {s : Story} (h : s.Writable Expr.Writable) :
    s.simplify.signed.render = s.simplify.render := by
  refine render_map (fun _ => rfl) fun p hp => ?_
  obtain ⟨q, hq, rfl⟩ := List.mem_map.mp hp
  exact (h.passages q hq).chars_signed_simplify

theorem Writable.simplify_signed_simplify {s : Story} (h : s.Writable Expr.Writable) :
    s.simplify.signed.simplify = s.simplify := by
  have hpassages : (s.simplify.passages.map Passage.signed).map Passage.simplify = s.simplify.passages := by
    rw [simplify, List.map_map, List.map_map]
    exact List.map_congr_left fun p hp => (h.passages p hp).simplify_signed_simplify
  show { s.simplify with passages := (s.simplify.passages.map Passage.signed).map Passage.simplify } = _
  rw [hpassages]

/-- **A simplified story survives being written.** What is read from its text is simplified to what has the
same text. -/
theorem Writable.ofSource_render_simplify {s : Story} (h : s.Writable Expr.Writable)
    (hwhole : ∀ p ∈ s.passages, p.IsWhole) :
    ∃ s', Story.ofSource s.simplify.render = .ok s' ∧ s'.simplify.render = s.simplify.render := by
  obtain ⟨s', hread, hsettle⟩ := ofSource_render
    (fun e he => ⟨he.1, Expr.fits_of_depth_le he.2⟩) (h.signed_simplify hwhole)
  refine ⟨s', h.render_signed_simplify ▸ hread, ?_⟩
  calc s'.simplify.render
      = (s'.simplify.relocate .erase).render := (render_relocate .erase _).symm
    _ = (s'.relocate .erase).simplify.render := by rw [simplify_relocate]
    _ = s.simplify.signed.settle.simplify.render := by rw [hsettle]
    _ = s.simplify.signed.simplify.settle.render := by rw [simplify_settle]
    _ = s.simplify.signed.simplify.render := render_settle _
    _ = s.simplify.render := by rw [h.simplify_signed_simplify]

/-- Conditionals that lack a marker and markers that lack a conditional are reported as errors. -/
theorem isWhole_of_validate {s : Story} (h : Diagnostic.hasErrors s.validate = false) :
    ∀ p ∈ s.passages, p.IsWhole := by
  intro p hp n hn
  have hwalk : n ∈ s.walk := List.mem_flatMap.mpr ⟨p, hp, hn⟩
  have hnone : ∀ d ∈ Validate.node s s.assigned n, (∀ name, d.code ≠ .unassignedVariable name) →
      d.severity ≠ .error :=
    fun d hd hcode => Diagnostic.hasErrors_eq_false.mp h d (mem_validate_of_node hwalk hd hcode)
  cases n with
  | conditional guard body otherwise opening closing =>
    cases closing with
    | some pos => rfl
    | none =>
      refine absurd rfl (hnone _ (List.mem_append_right _ (List.mem_singleton_self _)) ?_)
      exact fun _ => Code.noConfusion
  | stray marker pos =>
    refine absurd rfl (hnone _ (List.mem_singleton_self _) ?_)
    exact fun _ => Code.noConfusion
  | _ => rfl

/-- **An optimized story survives being written.** For every source that is checked without an error and
whose story holds no decimal and no expression beyond the nesting limit: the canonical text of the
simplified story is read without an error, and the story read from it is simplified to one with that very
text. -/
theorem render_simplify_stable (source name : String)
    (h : ∀ d ∈ check source name, d.severity ≠ .error)
    (hfree : (Story.ofTokens (Lexed.ofSource source).tokens).story.FloatFree)
    (hdepth : ∀ e ∈ (Story.ofTokens (Lexed.ofSource source).tokens).story.exprs, e.depth ≤ maxNesting) :
    ∃ s, Story.ofSource (Story.ofTokens (Lexed.ofSource source).tokens).story.simplify.render = .ok s ∧
      s.simplify.render = (Story.ofTokens (Lexed.ofSource source).tokens).story.simplify.render := by
  have hwritable : (Story.ofTokens (Lexed.ofSource source).tokens).story.Writable Expr.Writable :=
    ((writable_ofSource source).of_floatFree hfree).imp fun e he hfits => ⟨hfits.1, hdepth e he⟩
  have hvalid :
      Diagnostic.hasErrors (Story.ofTokens (Lexed.ofSource source).tokens).story.validate = false := by
    rw [← Bool.not_eq_true]
    intro herror
    have hcheck : Diagnostic.hasErrors (check source name) = true := hasErrors_analyze_of_validate herror
    rw [Diagnostic.hasErrors_eq_false.mpr h] at hcheck
    cases hcheck
  exact hwritable.ofSource_render_simplify (isWhole_of_validate hvalid)

/-- Simplifying this source makes a negative literal on either side of operators, keeps a difference that no
literal can be, moves the branch of one conditional into the body of another and drops a choice. -/
theorem render_simplify_stable_gate :
    let source := ":: Start\n$a = -9223372036854775807 - 1\n$a = -(2 - 7) * $a - (3 - 8)\n" ++
      "\x7b$a > 1 - 4\x7d\n\x7b!false\x7d\n* \x7b$a != -1\x7d [in]\n\x7belse\x7d\nNo.\n" ++
      "\x7b/\x7d\n\x7b/\x7d\n* \x7b1 == 2\x7d [no]"
    let s := (Story.ofTokens (Lexed.ofSource source).tokens).story
    ((∀ d ∈ check source "gate", d.severity ≠ .error) ∧ s.FloatFree ∧
        ∀ e ∈ s.exprs, e.depth ≤ maxNesting) ∧
      ∃ s', Story.ofSource s.simplify.render = .ok s' ∧ s'.simplify.render = s.simplify.render := by
  intro source s
  have hchecked : (∀ d ∈ check source "gate", d.severity ≠ .error) ∧ s.FloatFree ∧
      ∀ e ∈ s.exprs, e.depth ≤ maxNesting := by decide +kernel
  exact ⟨hchecked, render_simplify_stable source "gate" hchecked.1 hchecked.2.1 hchecked.2.2⟩

end Story

end Gamebook
