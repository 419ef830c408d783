/-
# Gamebook.Proofs.Reading.Everywhere — what holds of every statement that is read

A body is put together line by line, and a statement gets into it in one of three ways: it is read from its
line, it is a conditional opened by its line, or it is a marker without a conditional. What is true of all
three, for the lines that can be cut from the tokens (`Node.Reads`), holds of every statement of every
passage, however deep it stands and whatever errors the reader met (`Story.everywhere_ofTokens`). So a fact
about the statements of a story needs to look at one line only.
-/
import Gamebook.Proofs.Body
import Gamebook.Proofs.Layout
import Gamebook.Proofs.Reading.Expr
import Gamebook.Proofs.Reading.Line

namespace Gamebook

/-! ## One line -/

theorem LineEnd.expectEnd_eq_ok {stop : LineEnd} {ts : List Token} (h : stop.expectEnd ts = .ok ()) :
    ts = [] := by
  cases ts with
  | nil => rfl
  | cons t ts => cases h

theorem Choice.readGuard_eq_ok {stop : LineEnd} {ts rest : List Token} {guard : Option Expr}
    (h : Choice.readGuard stop ts = .ok (guard, rest)) :
    (guard = none ∧ rest = ts) ∨
      ∃ t used u g, t.kind = .opening .brace ∧ u.kind = .closing .brace ∧
        Expr.Derives maxNesting BinaryOp.unaryRank used g ∧ guard = some g ∧
          ts = t :: (used ++ u :: rest) := by
  cases ts with
  | nil =>
    cases h
    exact .inl ⟨rfl, rfl⟩
  | cons t ts =>
    rw [Choice.readGuard] at h
    split at h
    · next hopen =>
      obtain ⟨⟨g, after⟩, hread, hrest⟩ := bind_eq_ok.mp h
      obtain ⟨⟨⟨⟩, after'⟩, hexpect, hok⟩ := bind_eq_ok.mp hrest
      obtain ⟨used, rfl, hg⟩ := Expr.read_derives stop hread
      obtain ⟨u, hclose, rfl⟩ := LineEnd.expect_eq_ok hexpect
      cases hok
      exact .inr ⟨t, used, u, g, hopen, hclose, hg, rfl, rfl⟩
    · cases h
      exact .inl ⟨rfl, rfl⟩

/-- The text of a choice is a token between square brackets, or there is none. -/
theorem Choice.readText_eq_ok {stop : LineEnd} {ts rest : List Token} {text : String}
    (h : Choice.readText stop ts = .ok (text, rest)) :
    ∃ t u, t.kind = .opening .square ∧ u.kind = .closing .square ∧
      ((text = "" ∧ ts = t :: u :: rest) ∨
        ∃ w, w.kind = .text ∧ text = w.content ∧ ts = t :: w :: u :: rest) := by
  rw [Choice.readText] at h
  obtain ⟨⟨⟨⟩, us⟩, hopens, hrest⟩ := bind_eq_ok.mp h
  obtain ⟨t, hopen, rfl⟩ := LineEnd.expect_eq_ok hopens
  obtain ⟨⟨⟨⟩, after⟩, hcloses, hok⟩ := bind_eq_ok.mp hrest
  obtain ⟨u, hclose, hus⟩ : ∃ u, u.kind = .closing .square ∧ (readText.takeText us).2 = u :: after :=
    LineEnd.expect_eq_ok hcloses
  cases hok
  refine ⟨t, u, hopen, hclose, ?_⟩
  cases us with
  | nil => cases hus
  | cons w ws =>
    rw [readText.takeText] at hus
    by_cases hkind : w.kind = .text
    · rw [if_pos hkind] at hus
      exact .inr ⟨w, hkind, by simp [hkind], by rw [← hus]⟩
    · rw [if_neg hkind] at hus
      exact .inl ⟨by simp [hkind], by rw [← hus]⟩

/-- A choice is read as its guard and then its text. -/
theorem Choice.read_eq_ok {stop : LineEnd} {pos : Position} {ts : List Token} {c : Choice}
    (h : Choice.read stop pos ts = .ok c) :
    ∃ rest rest', Choice.readGuard stop ts = .ok (c.guard, rest) ∧
      Choice.readText stop rest = .ok (c.text, rest') := by
  rw [Choice.read] at h
  obtain ⟨⟨guard, rest⟩, hguard, h⟩ := bind_eq_ok.mp h
  obtain ⟨⟨text, rest'⟩, htext, h⟩ := bind_eq_ok.mp h
  obtain ⟨⟨target, rest''⟩, -, h⟩ := bind_eq_ok.mp h
  obtain ⟨⟨⟩, -, h⟩ := bind_eq_ok.mp h
  cases h
  exact ⟨rest, rest', hguard, htext⟩

theorem Assignment.value_derives {stop : LineEnd} {pos : Position} {ts : List Token} {a : Assignment}
    (h : Assignment.read stop pos ts = .ok a) :
    ∃ used, Expr.Derives maxNesting BinaryOp.unaryRank used a.value := by
  rw [Assignment.read] at h
  obtain ⟨⟨name, rest⟩, -, h⟩ := bind_eq_ok.mp h
  obtain ⟨⟨op, rest'⟩, -, h⟩ := bind_eq_ok.mp h
  obtain ⟨⟨value, rest''⟩, hvalue, h⟩ := bind_eq_ok.mp h
  obtain ⟨⟨⟩, -, h⟩ := bind_eq_ok.mp h
  cases h
  obtain ⟨used, -, hderives⟩ := Expr.read_derives stop hvalue
  exact ⟨used, hderives⟩

theorem Node.condition_derives {stop : LineEnd} {ts : List Token} {guard : Expr}
    (h : Node.readCondition stop ts = .ok guard) :
    ∃ used, Expr.Derives maxNesting BinaryOp.unaryRank used guard := by
  rw [Node.readCondition] at h
  obtain ⟨⟨e, rest⟩, hread, h⟩ := bind_eq_ok.mp h
  obtain ⟨⟨⟨⟩, rest'⟩, -, h⟩ := bind_eq_ok.mp h
  obtain ⟨⟨⟩, -, h⟩ := bind_eq_ok.mp h
  cases h
  obtain ⟨used, -, hderives⟩ := Expr.read_derives stop hread
  exact ⟨used, hderives⟩

/-- What a line can be read as, by its first token. -/
theorem Node.read_cases {stop : LineEnd} {t : Token} {ts : List Token} {n : Node} {C : Node → Prop}
    (h : Node.read stop t ts = .ok n)
    (text : t.kind = .text → ts = [] → C (.text t.content t.pos))
    (script : t.kind = .script → ts = [] → C (.script t.content t.pos))
    (assignment : ∀ a, t.kind = .dollar → Assignment.read stop t.pos ts = .ok a → C (.assignment a))
    (choice : ∀ c, t.kind = .choiceMarker → Choice.read stop t.pos ts = .ok c → C (.choice c))
    (divert : ∀ u, t.kind = .arrow → u.kind = .identifier → ts = [u] → C (.divert u.raw t.pos)) : C n := by
  rw [Node.read] at h
  split at h
  · next hkind =>
    obtain ⟨⟨⟩, hend, hok⟩ := bind_eq_ok.mp h
    cases hok
    exact text hkind (LineEnd.expectEnd_eq_ok hend)
  · next hkind =>
    obtain ⟨⟨⟩, hend, hok⟩ := bind_eq_ok.mp h
    cases hok
    exact script hkind (LineEnd.expectEnd_eq_ok hend)
  · next hkind =>
    obtain ⟨a, hread, hok⟩ := bind_eq_ok.mp h
    cases hok
    exact assignment a hkind hread
  · next hkind =>
    obtain ⟨c, hread, hok⟩ := bind_eq_ok.mp h
    cases hok
    exact choice c hkind hread
  · next hkind =>
    rw [Node.readDivert] at h
    obtain ⟨⟨target, rest⟩, hread, hrest⟩ := bind_eq_ok.mp h
    obtain ⟨⟨⟩, hend, hok⟩ := bind_eq_ok.mp hrest
    obtain ⟨u, hname, rfl, rfl⟩ := LineEnd.expectName_eq_ok hread
    cases hok
    obtain rfl := LineEnd.expectEnd_eq_ok hend
    exact divert u hkind hname rfl
  · cases h
  · cases h

/-- A statement that is read from one line holds no body. -/
theorem Node.isConditional_of_read {stop : LineEnd} {t : Token} {ts : List Token} {n : Node}
    (h : Node.read stop t ts = .ok n) : n.isConditional = false :=
  Node.read_cases (C := fun n => n.isConditional = false) h (fun _ _ => rfl) (fun _ _ => rfl)
    (fun _ _ _ => rfl) (fun _ _ _ => rfl) fun _ _ _ _ => rfl

/-- What holds of every statement that a line of the given tokens can bring into a body. A conditional
counts with its guard and its place alone, since its branches come from other lines. -/
structure Node.Reads (words : List Token) (P : Node → Prop) : Prop where
  statement : ∀ {stop : LineEnd} {t : Token} {ts : List Token} {n : Node}, t :: ts <:+: words →
    Node.read stop t ts = .ok n → P n
  condition : ∀ {stop : LineEnd} {t : Token} {ts : List Token} {guard : Expr}, t :: ts <:+: words →
    Node.readCondition stop ts = .ok guard → ∀ body otherwise closing,
      P (.conditional guard body otherwise t.pos closing)
  /-- A guard that cannot be read is replaced. -/
  unread : ∀ {t : Token} {ts : List Token}, t :: ts <:+: words → ∀ body otherwise closing,
    P (.conditional (.literal (.bool false)) body otherwise t.pos closing)
  stray : ∀ {t : Token} {ts : List Token}, t :: ts <:+: words → ∀ marker, P (.stray marker t.pos)

/-- What holds of every expression that can be derived holds of the expressions of every statement. -/
theorem Node.reads_exprs {Q : Expr → Prop} (words : List Token)
    (hderives : ∀ used e, Expr.Derives maxNesting BinaryOp.unaryRank used e → Q e)
    (hunread : Q (.literal (.bool false))) : Node.Reads words fun n => ∀ e ∈ n.exprs, Q e := by
  refine ⟨fun _ hread => ?_, fun _ hread body otherwise closing e he => ?_,
    fun _ body otherwise closing e he => ?_, fun _ marker e he => ?_⟩
  · refine Node.read_cases (C := fun n => ∀ e ∈ n.exprs, Q e) hread (fun _ _ e he => ?_)
      (fun _ _ e he => ?_) (fun a _ hread e he => ?_) (fun c _ hread e he => ?_)
      (fun u _ _ _ e he => ?_)
    · cases he
    · cases he
    · obtain ⟨used, hvalue⟩ := Assignment.value_derives hread
      rw [List.mem_singleton.mp he]
      exact hderives used _ hvalue
    · obtain ⟨rest, rest', hguard, -⟩ := Choice.read_eq_ok hread
      rcases Choice.readGuard_eq_ok hguard with ⟨hnone, -⟩ | ⟨t, used, u, g, -, -, hg, hsome, -⟩
      · rw [Node.exprs, hnone] at he
        cases he
      · rw [Node.exprs, hsome] at he
        rw [List.mem_singleton.mp he]
        exact hderives used g hg
    · cases he
  · obtain ⟨used, hguard⟩ := Node.condition_derives hread
    rw [List.mem_singleton.mp he]
    exact hderives used _ hguard
  · rw [List.mem_singleton.mp he]
    exact hunread
  · cases he

/-! ## Open conditionals -/

/-- What holds of the statements before an open conditional and in its first branch, and will hold of the
conditional itself. -/
structure Frame.Holds (P : Node → Prop) (f : Frame) : Prop where
  opened : ∀ body otherwise closing, P (.conditional f.guard body otherwise f.pos closing)
  before : Node.Everywhere P f.before.toList
  first : ∀ body ∈ f.first, Node.Everywhere P body.toList

theorem Frame.Holds.toNode {P : Node → Prop} {f : Frame} (h : f.Holds P) {nodes : Array Node}
    (hnodes : Node.Everywhere P nodes.toList) (closing : Option Position) :
    Node.Everywhere P [f.toNode nodes closing] := by
  rw [Frame.toNode]
  cases hfirst : f.first with
  | none =>
    refine Node.everywhere_conditional.mpr ⟨h.opened _ _ _, hnodes, fun branch hbranch => ?_⟩
    cases hbranch
  | some body =>
    refine Node.everywhere_conditional.mpr ⟨h.opened _ _ _, h.first body hfirst, fun branch hbranch => ?_⟩
    rw [← Option.some.inj hbranch]
    exact hnodes

namespace Assembly

/-- What holds of every statement in the open blocks. -/
structure Holds (P : Node → Prop) (a : Assembly) : Prop where
  frames : ∀ f ∈ a.frames, f.Holds P
  nodes : Node.Everywhere P a.nodes.toList

variable {P : Node → Prop} {a : Assembly}

theorem Holds.push (h : a.Holds P) {n : Node} (hn : Node.Everywhere P [n]) : (a.push n).Holds P := by
  refine ⟨h.frames, ?_⟩
  show Node.Everywhere P (a.nodes.push n).toList
  rw [Array.toList_push]
  exact Node.everywhere_append.mpr ⟨h.nodes, hn⟩

theorem Holds.note (h : a.Holds P) (i : Incident) : (a.note i).Holds P := ⟨h.frames, h.nodes⟩

theorem Holds.openBlock (h : a.Holds P) {guard : Expr} {pos : Position}
    (hopened : ∀ body otherwise closing, P (.conditional guard body otherwise pos closing)) :
    (a.openBlock guard pos).Holds P := by
  refine ⟨?_, Node.everywhere_nil⟩
  show ∀ f ∈ Frame.mk guard pos a.nodes none :: a.frames, f.Holds P
  rw [List.forall_mem_cons]
  refine ⟨⟨hopened, h.nodes, fun body hbody => ?_⟩, h.frames⟩
  cases hbody

theorem Holds.closeBlock (h : a.Holds P) (closing : Option Position) : (a.closeBlock closing).Holds P := by
  rw [Assembly.closeBlock]
  split
  · exact h
  · next f fs hframes =>
    obtain ⟨hf, hfs⟩ := List.forall_mem_cons.mp (hframes ▸ h.frames)
    refine ⟨hfs, ?_⟩
    show Node.Everywhere P (f.before.push _).toList
    rw [Array.toList_push]
    exact Node.everywhere_append.mpr ⟨hf.before, hf.toNode h.nodes closing⟩

/-- A marker finds its conditional, or becomes a statement. -/
theorem Holds.mark (h : a.Holds P) {m : Marker} {pos : Position} (hstray : ∀ m, P (.stray m pos)) :
    (a.mark m pos).Holds P := by
  have hpush : ∀ m, (a.push (.stray m pos)).Holds P :=
    fun m => h.push ((Node.everywhere_leaf rfl).mpr (hstray m))
  unfold Assembly.mark
  split
  · exact hpush _
  · exact h.closeBlock (some pos)
  · next f fs hframes =>
    obtain ⟨hf, hfs⟩ := List.forall_mem_cons.mp (hframes ▸ h.frames)
    split
    · -- The block so far becomes the first branch.
      refine ⟨?_, Node.everywhere_nil⟩
      show ∀ g ∈ { f with first := some a.nodes } :: fs, g.Holds P
      rw [List.forall_mem_cons]
      refine ⟨⟨hf.opened, hf.before, fun body hbody => ?_⟩, hfs⟩
      rw [← Option.some.inj hbody]
      exact h.nodes
    · exact hpush .otherwise

/-! ## Lines -/

section

variable {words : List Token} (hreads : Node.Reads words P) {stop : LineEnd} {t : Token} {ts : List Token}
include hreads

theorem Holds.markerLine (h : a.Holds P) (hin : t :: ts <:+: words) (m : Marker) :
    (a.markerLine stop m t ts).Holds P := by
  rw [Assembly.markerLine]
  split
  · exact h.mark (hreads.stray hin)
  · exact (h.note _).mark (hreads.stray hin)

theorem Holds.conditionLine (h : a.Holds P) (hin : t :: ts <:+: words) :
    (a.conditionLine stop t ts).Holds P := by
  rw [Assembly.conditionLine]
  split
  · next guard hread => exact h.openBlock (hreads.condition hin hread)
  · exact (h.note _).openBlock (hreads.unread hin)

theorem Holds.statementLine (h : a.Holds P) (hin : t :: ts <:+: words) :
    (a.statementLine stop t ts).Holds P := by
  rw [Assembly.statementLine]
  split
  · next n hread =>
    exact h.push ((Node.everywhere_leaf (Node.isConditional_of_read hread)).mpr
      (hreads.statement hin hread))
  · exact h.note _

theorem Holds.readLine (h : a.Holds P) (hin : ts <:+: words) : (a.readLine stop ts).Holds P := by
  refine readLine_induction (motive := fun a ts r => a.Holds P → ts <:+: words → r.Holds P)
    ?nil ?marker ?condition ?statement ?skipped ?resumed a ts h hin
  case nil => exact fun a h _ => h
  case marker => exact fun a t ts m _ h hin => h.markerLine hreads hin m
  case condition => exact fun a t ts _ _ h hin => h.conditionLine hreads hin
  case statement => exact fun a t ts _ _ h hin => h.statementLine hreads hin
  case skipped => exact fun a t ts waiting _ _ _ h _ => ⟨h.frames, h.nodes⟩
  case resumed =>
    intro a t ts rest _ _ hskip ih h hin
    exact ih (h.note _) ((suffix_of_skip hskip).isInfix.trans hin)

theorem Holds.line (h : a.Holds P) {l : Line} (hin : l.tokens <:+: words) : (a.line l).Holds P := by
  rw [Assembly.line]
  split
  · exact h.readLine hreads hin
  · split
    · exact ⟨h.frames, h.nodes⟩
    · next rest hskip =>
      have hresumed : Holds P { a with skipping := none } := ⟨h.frames, h.nodes⟩
      exact hresumed.readLine hreads ((suffix_of_skip hskip).isInfix.trans hin)

theorem holds_ofLines {ls : List Line} (hls : ∀ l ∈ ls, l.tokens <:+: words) : (ofLines ls).Holds P := by
  refine List.foldlRecOn ls Assembly.line (b := Assembly.empty) ?_ fun a ha l hl => ha.line hreads (hls l hl)
  exact ⟨List.forall_mem_nil _, Node.everywhere_nil⟩

end

/-! ## The end of the passage -/

theorem everywhere_closeAll {nodes : Array Node} {fs : List Frame} (hfs : ∀ f ∈ fs, f.Holds P)
    (hnodes : Node.Everywhere P nodes.toList) : Node.Everywhere P (closeAll nodes fs).toList := by
  induction fs generalizing nodes with
  | nil => exact hnodes
  | cons f fs ih =>
    obtain ⟨hf, hfs⟩ := List.forall_mem_cons.mp hfs
    rw [closeAll]
    refine ih hfs ?_
    rw [Array.toList_push]
    exact Node.everywhere_append.mpr ⟨hf.before, hf.toNode hnodes none⟩

end Assembly

/-- **What holds of every statement that one line can bring holds everywhere in the story.** -/
theorem Story.everywhere_ofTokens {tokens : List Token} {P : Node → Prop}
    (hreads : Node.Reads (tokens.filter fun t => !t.kind.isTrivia) P) :
    ∀ p ∈ (Story.ofTokens tokens).story.passages, Node.Everywhere P p.body := by
  intro p hp
  obtain ⟨s, hs, hpassage⟩ := List.mem_filterMap.mp hp
  obtain ⟨name, -, rfl⟩ := Option.map_eq_some_iff.mp hpassage
  have hheld := Assembly.holds_ofLines hreads ((Outline.ofTokens_within tokens).2 s hs).body
  exact Assembly.everywhere_closeAll hheld.frames hheld.nodes

end Gamebook
