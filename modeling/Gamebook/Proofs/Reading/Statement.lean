/-
# Gamebook.Proofs.Reading.Statement — what is read from a line can be written

The readers of expressions and statements build, from orderly tokens, nothing that could not be written
again. A reader is described by what it yields and by leaving a suffix of its tokens (`Yields`), so the
readers that follow it on the line find orderly tokens too.

For an expression the levels of the reader count. `Expr.Built` says what is derived at a level with a
budget: an operand that would need parentheses at the next tighter rank has spent one more of the
budget. Decimals are the exception to all of this, since not every decimal has a text that is read as it
again.
-/
import Gamebook.Proofs.Reading.Everywhere
import Gamebook.Proofs.Scan.Order
import Gamebook.Proofs.Spelling.Statement

namespace Gamebook

open Gamebook.Lexeme

/-! ## Readers -/

/-- A reader yields only values with the property, and leaves the end of its tokens. -/
def Yields {α : Type} (reader : LineReader α) (P : α → Prop) : Prop :=
  ∀ ⦃ts : List Token⦄ ⦃v : α⦄ ⦃rest : List Token⦄, Token.Orderly ts → reader ts = .ok (v, rest) →
    P v ∧ rest <:+ ts

/-! ## Expressions -/

namespace Expr

/-- What the reader of a level builds with a budget. -/
structure Built (budget levels : Nat) (e : Expr) : Prop where
  written : e.isFloatFree = true → e.isWritten = true
  low : e.isLow = true
  nesting : enclosed (e.rank < BinaryOp.unaryRank - levels) e.nesting ≤ budget

theorem enclosed_le {needed needed' : Bool} (h : needed = true → needed' = true) (n : Nat) :
    enclosed needed n ≤ enclosed needed' n := by
  cases needed with
  | false => cases needed' <;> simp [enclosed]
  | true => rw [h rfl]

theorem enclosed_le_succ (needed : Bool) (n : Nat) : enclosed needed n ≤ n + 1 := by
  unfold enclosed
  split <;> omega

/-- At the right of its rank an operand needs parentheses just when the next tighter level would not have
read it without them. -/
theorem decide_rank_le_eq {levels : Nat} {op : BinaryOp} {r : Expr} (hlevels : levels < BinaryOp.unaryRank)
    (hop : op.rank = BinaryOp.unaryRank - (levels + 1)) :
    decide (r.rank ≤ op.rank) = decide (r.rank < BinaryOp.unaryRank - levels) := by
  rw [decide_eq_decide]
  omega

/-- An expression that needs no parentheses at its level. -/
theorem built_of_rank {budget levels : Nat} {e : Expr}
    (hwritten : e.isFloatFree = true → e.isWritten = true) (hlow : e.isLow = true)
    (hrank : BinaryOp.unaryRank - levels ≤ e.rank) (hnesting : e.nesting ≤ budget) :
    Built budget levels e := by
  refine ⟨hwritten, hlow, ?_⟩
  rw [decide_eq_false (Nat.not_lt.mpr hrank)]
  exact hnesting

/-- At the loosest level nothing needs parentheses. -/
theorem Built.nesting_le {budget : Nat} {e : Expr} (h : Built budget BinaryOp.unaryRank e) :
    e.nesting ≤ budget := by
  have hnesting := h.nesting
  rwa [Nat.sub_self, decide_eq_false (Nat.not_lt_zero _)] at hnesting

/-- What is built at a level may stand at every looser one. -/
theorem Built.mono {budget levels levels' : Nat} {e : Expr} (h : Built budget levels e)
    (hle : levels ≤ levels') : Built budget levels' e := by
  refine ⟨h.written, h.low, Nat.le_trans (enclosed_le (fun hrank => ?_) _) h.nesting⟩
  rw [decide_eq_true_eq] at hrank ⊢
  omega

/-- An operation is built of a chain of its rank and an operand of the next tighter one. -/
theorem Built.binary {budget levels : Nat} {op : BinaryOp} {l r : Expr}
    (hlevels : levels < BinaryOp.unaryRank) (hop : op.rank = BinaryOp.unaryRank - (levels + 1))
    (hl : Built budget (levels + 1) l) (hr : Built budget levels r)
    (hdepth : (Expr.binary op l r).depth ≤ maxNesting) :
    Built budget (levels + 1) (.binary op l r) := by
  have hleft := hl.nesting
  have hright := hr.nesting
  rw [← hop] at hleft
  rw [← decide_rank_le_eq hlevels hop] at hright
  refine built_of_rank (fun hfree => ?_) ?_ (Nat.le_of_eq hop.symm) (Nat.max_le.mpr ⟨hleft, hright⟩)
  · rw [isFloatFree, Bool.and_eq_true] at hfree
    rw [isWritten, hl.written hfree.1, hr.written hfree.2]
    rfl
  · rw [isLow, hl.low, hr.low]
    simp [hdepth]

/-- A unary operation and an expression in parentheses each cost one of the budget. -/
theorem Built.unary {budget : Nat} {op : UnaryOp} {e : Expr} (h : Built budget 0 e) :
    Built (budget + 1) 0 (.unary op e) :=
  built_of_rank h.written h.low (Nat.le_refl _) (Nat.succ_le_succ h.nesting)

theorem Built.group {budget : Nat} {e : Expr} (h : Built budget BinaryOp.unaryRank e) :
    Built (budget + 1) 0 e := by
  refine ⟨h.written, h.low, ?_⟩
  exact Nat.le_trans (enclosed_le_succ _ _) (Nat.succ_le_succ h.nesting_le)

/-- The value of a literal can be written, unless it is a decimal. -/
theorem isWord_of_sound {t : Token} (ht : t.Sound) (hliteral : isLiteral t = true) {v : Literal}
    (hv : t.value = some v) (hfloat : v.isFloat = false) : v.isWord = true := by
  unfold isLiteral at hliteral
  split at hliteral
  · next hkind =>
    have hcarries := ht.carries_of_kind hkind rfl TokenKind.noConfusion
    rw [hv] at hcarries
    rcases hcarries with ⟨n, hn, hvalue⟩ | ⟨f, hvalue⟩
    · -- An integer that was read is at most the largest one, so it is not negative.
      cases hvalue
      have hint : (Int64.ofNat n).toInt = n := Int64.toInt_ofNat_of_lt (by rw [maxInteger] at hn; omega)
      rw [Literal.isWord, decide_eq_true_eq, Int64.le_iff_toInt_le, hint]
      exact Int.natCast_nonneg n
    · cases hvalue
      cases hfloat
  · next hkind =>
    have hcarries := ht.carries_of_kind hkind rfl TokenKind.noConfusion
    rw [hv] at hcarries
    obtain ⟨s, hvalue, hmem⟩ := hcarries
    cases hvalue
    rw [Literal.isWord, Bool.not_eq_true', List.contains_eq_mem, decide_eq_false_iff_not]
    intro hcr
    rcases hmem '\r' hcr with h | h | h
    · exact ht.raw h
    · cases h
    · cases h
  · next b hkind =>
    have hcarries := ht.carries_of_kind hkind rfl TokenKind.noConfusion
    rw [hv] at hcarries
    cases hcarries
    rfl
  · cases hliteral

/-- From orderly tokens only what can be written again is derived. -/
theorem Derives.built {budget levels : Nat} {ts : List Token} {e : Expr} (h : Derives budget levels ts e)
    (hts : Token.Orderly ts) : Built budget levels e := by
  induction h with
  | literal budget hliteral hvalue =>
    refine built_of_rank (fun hfree => ?_) rfl (Nat.le_refl _) (Nat.zero_le _)
    rw [isFloatFree, Bool.not_eq_true'] at hfree
    exact isWord_of_sound hts.head hliteral hvalue hfree
  | var budget hdollar hname =>
    have hword := hts.follows.name hname hdollar
    exact built_of_rank (fun _ => hword) rfl (Nat.le_refl _) (Nat.zero_le _)
  | unary hop operand ih => exact (ih hts.tail).unary
  | group hopen hclose inner ih =>
    exact (ih (hts.tail.of_infix (List.prefix_append _ _).isInfix)).group
  | loosen inner ih => exact (ih hts).mono (Nat.le_succ _)
  | @binary budget levels t op ts us l r hlevels hop hrank left right hdepth ihl ihr =>
    have hl := ihl (hts.of_infix (List.prefix_append ts (t :: us)).isInfix)
    have hr := ihr (hts.of_suffix ((List.suffix_cons t us).trans (List.suffix_append ts (t :: us))))
    exact hl.binary hlevels hrank hr hdepth

/-- An expression that has been read can be read back, and be written unless it holds a decimal. -/
def Legible (e : Expr) : Prop := (e.isFloatFree = true → e.isWritten = true) ∧ e.Fits

theorem Derives.legible {ts : List Token} {e : Expr} (h : Derives maxNesting BinaryOp.unaryRank ts e)
    (hts : Token.Orderly ts) : e.Legible := by
  have hbuilt := h.built hts
  exact ⟨hbuilt.written, hbuilt.low, hbuilt.nesting_le⟩

/-- **What is read as an expression is legible.** -/
theorem read_yields (stop : LineEnd) : Yields (read stop) Legible := by
  intro ts e rest hts h
  obtain ⟨used, rfl, hderives⟩ := read_derives stop h
  refine ⟨hderives.legible (hts.of_infix ?_), List.suffix_append used rest⟩
  exact (List.prefix_append used rest).isInfix

end Expr

/-! ## What texts hold -/

namespace Token.Sound

variable {t : Token}

/-- A text stays on its line. -/
theorem text (h : t.Sound) (hkind : t.kind = .text) :
    '\n' ∉ t.content.toList ∧ '\r' ∉ t.content.toList := by
  obtain ⟨s, hvalue, hbreak, hsub⟩ := h.carries_of_kind hkind rfl TokenKind.noConfusion
  have hcontent : t.content = s := by rw [Token.content, hvalue]
  rw [hcontent]
  exact ⟨fun hmem => hbreak (hsub hmem), fun hmem => h.raw (hsub hmem)⟩

theorem script (h : t.Sound) (hkind : t.kind = .script) : isScript t.content.toList = true := by
  obtain ⟨code, hvalue, hsub, hpair⟩ := h.carries_of_kind hkind rfl TokenKind.noConfusion
  have hcontent : t.content.toList = code := by rw [Token.content, hvalue, String.toList_ofList]
  rw [hcontent]
  refine isScript_iff.mpr ⟨fun hmem => h.raw (hsub hmem), fun hin => ?_, fun hlast => ?_⟩
  · exact hpair (hin.trans (List.prefix_append code ['>']).isInfix)
  · -- An angle at the end would make a pair with the first of the closing ones.
    obtain ⟨start, hstart⟩ := List.getLast?_eq_some_iff.mp hlast
    refine hpair ⟨start, [], ?_⟩
    rw [hstart]
    simp

theorem key (h : t.Sound) (hkind : t.kind = .metaKey) : ∀ c ∈ t.content.toList, isKeyChar c = true := by
  obtain ⟨key, hvalue, hall⟩ := h.carries_of_kind hkind rfl TokenKind.noConfusion
  have hcontent : t.content.toList = key := by rw [Token.content, hvalue, String.toList_ofList]
  rw [hcontent]
  exact hall

end Token.Sound

/-! ## Statements -/

namespace Choice

theorem readGuard_yields (stop : LineEnd) :
    Yields (readGuard stop) fun guard => ∀ g ∈ guard, g.Legible := by
  intro ts guard rest hts h
  rcases readGuard_eq_ok h with ⟨rfl, rfl⟩ | ⟨t, used, u, g, -, -, hg, rfl, rfl⟩
  · exact ⟨fun e he => absurd he (Option.not_mem_none e), List.suffix_refl _⟩
  · refine ⟨fun e he => Option.some.inj he ▸ hg.legible (hts.tail.of_infix ?_), ?_⟩
    · exact (List.prefix_append used (u :: rest)).isInfix
    · exact ((List.suffix_cons u rest).trans (List.suffix_append used _)).trans (List.suffix_cons t _)

theorem readText_yields (stop : LineEnd) :
    Yields (readText stop) fun text => '\n' ∉ text.toList ∧ '\r' ∉ text.toList := by
  intro ts text rest hts h
  obtain ⟨t, u, -, -, ⟨rfl, rfl⟩ | ⟨w, hkind, rfl, rfl⟩⟩ := readText_eq_ok h
  · exact ⟨by decide, (List.suffix_cons u rest).trans (List.suffix_cons t _)⟩
  · refine ⟨hts.tail.head.text hkind, ?_⟩
    exact ((List.suffix_cons u rest).trans (List.suffix_cons w _)).trans (List.suffix_cons t _)

theorem readTarget_yields (stop : LineEnd) :
    Yields (readTarget stop) fun target => ∀ t ∈ target, isPassageName t.toList = true := by
  intro ts target rest hts h
  cases ts with
  | nil =>
    cases h
    exact ⟨fun e he => absurd he (Option.not_mem_none e), List.suffix_refl _⟩
  | cons t ts =>
    rw [readTarget] at h
    split at h
    · next harrow =>
      obtain ⟨⟨name, after⟩, hread, hok⟩ := bind_eq_ok.mp h
      obtain ⟨u, hkind, rfl, rfl⟩ := LineEnd.expectName_eq_ok hread
      cases hok
      have hname := hts.follows.passage hkind (.inl harrow)
      refine ⟨fun e he => Option.some.inj he ▸ hname, ?_⟩
      exact (List.suffix_cons u rest).trans (List.suffix_cons t (u :: rest))
    · cases h
      exact ⟨fun e he => absurd he (Option.not_mem_none e), List.suffix_refl _⟩

theorem read_writable {stop : LineEnd} {pos : Position} {ts : List Token} {c : Choice}
    (hts : Token.Orderly ts) (h : Choice.read stop pos ts = .ok c) : c.Writable Expr.Legible := by
  rw [Choice.read] at h
  obtain ⟨⟨guard, rest⟩, hguard, h⟩ := bind_eq_ok.mp h
  obtain ⟨⟨text, rest'⟩, htext, h⟩ := bind_eq_ok.mp h
  obtain ⟨⟨target, rest''⟩, htarget, h⟩ := bind_eq_ok.mp h
  obtain ⟨⟨⟩, -, h⟩ := bind_eq_ok.mp h
  obtain ⟨hguard, hrest⟩ := readGuard_yields stop hts hguard
  have hts := hts.of_suffix hrest
  obtain ⟨htext, hrest'⟩ := readText_yields stop hts htext
  have hts := hts.of_suffix hrest'
  obtain ⟨htarget, -⟩ := readTarget_yields stop hts htarget
  cases h
  exact ⟨hguard, htext, htarget⟩

end Choice

theorem Assignment.readOp_suffix {stop : LineEnd} {op : AssignOp} {ts rest : List Token}
    (h : Assignment.readOp stop ts = .ok (op, rest)) : rest <:+ ts := by
  cases ts with
  | nil => cases h
  | cons t ts =>
    rw [Assignment.readOp] at h
    split at h
    · cases h
      exact List.suffix_cons t rest
    · cases h

theorem Assignment.read_writable {stop : LineEnd} {pos : Position} {t : Token} {ts : List Token}
    {a : Assignment} (hdollar : t.kind = .dollar) (hts : Token.Orderly (t :: ts))
    (h : Assignment.read stop pos ts = .ok a) :
    isName a.name.toList = true ∧ a.value.Legible := by
  rw [Assignment.read] at h
  obtain ⟨⟨name, rest⟩, hname, hrest⟩ := bind_eq_ok.mp h
  obtain ⟨⟨op, rest'⟩, hop, hrest'⟩ := bind_eq_ok.mp hrest
  obtain ⟨⟨value, rest''⟩, hvalue, hrest''⟩ := bind_eq_ok.mp hrest'
  obtain ⟨⟨⟩, -, hok⟩ := bind_eq_ok.mp hrest''
  obtain ⟨u, hkind, hraw, hu⟩ := LineEnd.expectName_eq_ok hname
  cases hok
  rw [hu] at hts
  have hafter := hts.tail.tail.of_suffix (Assignment.readOp_suffix hop)
  refine ⟨?_, (Expr.read_yields stop hafter hvalue).1⟩
  rw [← hraw]
  exact hts.follows.name hkind hdollar

theorem Node.readCondition_legible {stop : LineEnd} {ts : List Token} {guard : Expr}
    (hts : Token.Orderly ts) (h : Node.readCondition stop ts = .ok guard) : guard.Legible := by
  rw [Node.readCondition] at h
  obtain ⟨⟨e, rest⟩, hread, hrest⟩ := bind_eq_ok.mp h
  obtain ⟨⟨⟨⟩, rest'⟩, -, hrest'⟩ := bind_eq_ok.mp hrest
  obtain ⟨⟨⟩, -, hok⟩ := bind_eq_ok.mp hrest'
  cases hok
  exact (Expr.read_yields stop hts hread).1

/-- A statement that can be written wherever statements stand, and holds no body. -/
structure Node.Plain (n : Node) : Prop where
  writable : n.Writable Expr.Legible
  conditional : n.isConditional = false
  shaped : ∀ role last, n.shaped role last = true

/-- **What is read as a statement can be written.** -/
theorem Node.read_plain {stop : LineEnd} {t : Token} {ts : List Token} {n : Node}
    (hts : Token.Orderly (t :: ts)) (h : Node.read stop t ts = .ok n) : n.Plain := by
  refine Node.read_cases h (fun hkind _ => ?_) (fun hkind _ => ?_) (fun a hkind hread => ?_)
    (fun c hkind hread => ?_) (fun u hkind hname hrest => ?_)
  · exact ⟨(hts.head.text hkind).2, rfl, fun _ _ => rfl⟩
  · exact ⟨hts.head.script hkind, rfl, fun _ _ => rfl⟩
  · exact ⟨Assignment.read_writable hkind hts hread, rfl, fun _ _ => rfl⟩
  · exact ⟨Choice.read_writable hts.tail hread, rfl, fun _ _ => rfl⟩
  · rw [hrest] at hts
    exact ⟨hts.follows.passage hname (.inl hkind), rfl, fun _ _ => rfl⟩

end Gamebook
