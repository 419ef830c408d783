/-
# Gamebook.Proofs.Loop.Cursor — readers on a cursor

What stands on a line is read from the tokens of the line, which are cut out of the story before. A cursor reads from
all the tokens that lie ahead instead, whatever these are (`Cursor`). Nothing stops such a reader at the end of the line
but the token that it finds there, and no token may follow at all. The end of input is never passed, and a reader that
fails leaves the cursor where it has come to.

Such readers stay on their line all the same. On success they give what the line gives, and stand behind what they
have read or behind the whole line; on failure they give the same error and stand somewhere on the line, maybe still
at its first token (`Cursor.Follows`, `Cursor.Finishes`).
-/
import Gamebook.Story.Read

namespace Gamebook

/-- Whether tokens of a kind stand on a line, and neither between two lines nor at the end. -/
def TokenKind.isInner : TokenKind → Bool
  | newline | passageMarker | endOfInput => false
  | _ => true

/-- What an error tells of the tokens ahead: the place of the next one and what it is. Behind the last token it is the
place `ending`. -/
def LineEnd.ahead (ending : Position) : List Token → LineEnd
  | [] => ⟨ending, none⟩
  | t :: _ => ⟨t.pos, if t.kind = .newline ∨ t.kind = .endOfInput then none else some t.describe⟩

/-- Reading from a cursor, whose place is given by the tokens ahead. Failing keeps the place. -/
abbrev Cursor (α : Type) := ExceptT SyntaxError (StateM (List Token)) α

namespace Cursor

variable {α β : Type}

/-! ## Readers -/

/-- The kind of the next token. Behind the last one it is the end of input. -/
def kindAt : List Token → TokenKind
  | [] => .endOfInput
  | t :: _ => t.kind

/-- The tokens behind the next one. There is nothing behind the end of input. -/
def past : List Token → List Token
  | [] => []
  | t :: ts => if t.kind = .endOfInput then t :: ts else ts

/-- The tokens behind the next one if that is a line break. -/
def pastBreak (ts : List Token) : List Token := if kindAt ts = .newline then past ts else ts

/-- Passes over the next token. -/
def advance : Cursor Unit := modify past

/-- Takes a text, which may be missing. -/
def takeText : Cursor String := do
  match ← get with
  | t :: _ => if t.kind = .text then do advance; return t.content else return ""
  | [] => return ""

section

variable (ending : Position)

/-- Fails at the next token. -/
def fail (fault : Option String → SyntaxFault) : Cursor α := do
  let ahead := LineEnd.ahead ending (← get)
  throw ⟨fault ahead.found, ahead.pos⟩

/-- Takes the next token if it is of the given kind. -/
def expect (kind : TokenKind) (what : Expectation) : Cursor Unit := do
  if kindAt (← get) = kind then advance else fail ending (.expected what)

/-- Takes a name. -/
def expectName (fault : Option String → SyntaxFault) : Cursor String := do
  match ← get with
  | t :: _ => if t.kind = .identifier then do advance; return t.raw else fail ending fault
  | [] => fail ending fault

/-- Takes the end of the line. A passage marker and the end of input end it too and are left. -/
def expectEnd : Cursor Unit := do
  match kindAt (← get) with
  | .newline => advance
  | .passageMarker | .endOfInput => return
  | _ => fail ending (.expected .lineEnd)

end

/-! ## Lines and what ends them -/

/-- All tokens of a line are inside it. -/
def Inner (line : List Token) : Prop := ∀ t ∈ line, t.kind.isInner = true

/-- No line goes on with these tokens. -/
def Stops (rest : List Token) : Prop := (kindAt rest).isInner = false

variable {rest line : List Token} {ending : Position}

theorem past_cons_inner {t : Token} (h : t.kind.isInner = true) (ts : List Token) : past (t :: ts) = ts := by
  rw [past, if_neg]
  intro hend
  rw [hend] at h
  cases h

/-- A line ends at one of three kinds of token, the end of input standing behind the last one too. -/
theorem Stops.kindAt (h : Stops rest) :
    kindAt rest = .newline ∨ kindAt rest = .passageMarker ∨ kindAt rest = .endOfInput := by
  unfold Stops TokenKind.isInner at h
  split at h
  · next hk => exact .inl hk
  · next hk => exact .inr (.inl hk)
  · next hk => exact .inr (.inr hk)
  · cases h

theorem Stops.kindAt_ne {kind : TokenKind} (h : Stops rest) (hkind : kind.isInner = true) :
    Cursor.kindAt rest ≠ kind := by
  rintro rfl
  exact Bool.false_ne_true (h.symm.trans hkind)

theorem Inner.of_suffix {left : List Token} (h : Inner line) (hleft : left <:+ line) : Inner left :=
  fun t ht => h t (hleft.subset ht)

theorem Inner.head {t : Token} (h : Inner (t :: line)) : t.kind.isInner = true := h t List.mem_cons_self

theorem Inner.tail {t : Token} (h : Inner (t :: line)) : Inner line := h.of_suffix (List.suffix_cons t line)

/-- An error at the cursor tells what an error on the line tells. -/
theorem ahead_append (ending : Position) (rest : List Token) (hline : Inner line) :
    LineEnd.ahead ending (line ++ rest)
      = ⟨(LineEnd.ahead ending rest).here line, (LineEnd.ahead ending rest).next line⟩ := by
  cases line with
  | nil => rfl
  | cons t ts =>
    have ht := hline.head
    show LineEnd.mk t.pos _ = LineEnd.mk t.pos (some t.describe)
    rw [if_neg]
    rintro (hk | hk)
    all_goals
      rw [hk] at ht
      cases ht

/-! ## Readers stay on their line -/

/-- The reader fails at the start of `line`, before `rest`, and comes to a place on the line. -/
def Fails (rest line : List Token) (c : Cursor α) (e : SyntaxError) : Prop :=
  ∃ left, left <:+ line ∧ c.run.run (line ++ rest) = (.error e, left ++ rest)

/-- The reader gives at the start of `line`, before `rest`, what the line gives, and comes to a place on the line. -/
def Follows (rest line : List Token) (c : Cursor α) : Except SyntaxError (α × List Token) → Prop
  | .ok (a, left) => left <:+ line ∧ c.run.run (line ++ rest) = (.ok a, left ++ rest)
  | .error e => Fails rest line c e

/-- The reader gives at the start of `line`, before `rest`, what the line gives, and comes to the next line; if it
fails, it comes to a place on the line. -/
def Finishes (rest line : List Token) (c : Cursor α) : Except SyntaxError α → Prop
  | .ok a => c.run.run (line ++ rest) = (.ok a, pastBreak rest)
  | .error e => Fails rest line c e

theorem run_bind_ok {c : Cursor α} {f : α → Cursor β} {ts ts' : List Token} {a : α}
    (h : c.run.run ts = (.ok a, ts')) : (c >>= f).run.run ts = (f a).run.run ts' := by
  rw [ExceptT.run_bind, StateT.run_bind, h]
  rfl

theorem run_bind_error {c : Cursor α} {f : α → Cursor β} {ts ts' : List Token} {e : SyntaxError}
    (h : c.run.run ts = (.error e, ts')) : (c >>= f).run.run ts = (.error e, ts') := by
  rw [ExceptT.run_bind, StateT.run_bind, h]
  rfl

section

variable {c : Cursor α} {f : α → Cursor β} {e : SyntaxError}

theorem Fails.bind (h : Fails rest line c e) (f : α → Cursor β) : Fails rest line (c >>= f) e := by
  obtain ⟨left, hleft, hrun⟩ := h
  exact ⟨left, hleft, run_bind_error hrun⟩

theorem Fails.after {left : List Token} {a : α} (h : Fails rest left (f a) e) (hleft : left <:+ line)
    (hrun : c.run.run (line ++ rest) = (.ok a, left ++ rest)) : Fails rest line (c >>= f) e := by
  obtain ⟨left', hleft', hrun'⟩ := h
  exact ⟨left', hleft'.trans hleft, (run_bind_ok hrun).trans hrun'⟩

/-- Readers one after the other stay on the line if each of them does. -/
theorem Follows.bind {x : Except SyntaxError (α × List Token)}
    {k : α × List Token → Except SyntaxError (β × List Token)} (h : Follows rest line c x)
    (hk : ∀ a left, left <:+ line → Follows rest left (f a) (k (a, left))) :
    Follows rest line (c >>= f) (x >>= k) := by
  rcases x with e | ⟨a, left⟩
  · exact Fails.bind h f
  · obtain ⟨hleft, hrun⟩ := h
    have hnext := hk a left hleft
    show Follows rest line (c >>= f) (k (a, left))
    cases hx : k (a, left) with
    | error e =>
      rw [hx] at hnext
      exact Fails.after hnext hleft hrun
    | ok q =>
      rw [hx] at hnext
      exact ⟨hnext.1.trans hleft, (run_bind_ok hrun).trans hnext.2⟩

/-- The last reader may finish the line. -/
theorem Follows.last {x : Except SyntaxError (α × List Token)} {k : α × List Token → Except SyntaxError β}
    (h : Follows rest line c x) (hk : ∀ a left, left <:+ line → Finishes rest left (f a) (k (a, left))) :
    Finishes rest line (c >>= f) (x >>= k) := by
  rcases x with e | ⟨a, left⟩
  · exact Fails.bind h f
  · obtain ⟨hleft, hrun⟩ := h
    have hnext := hk a left hleft
    show Finishes rest line (c >>= f) (k (a, left))
    cases hx : k (a, left) with
    | error e =>
      rw [hx] at hnext
      exact Fails.after hnext hleft hrun
    | ok b =>
      rw [hx] at hnext
      exact (run_bind_ok hrun).trans hnext

theorem Finishes.map {x : Except SyntaxError α} (h : Finishes rest line c x) (f : α → β) :
    Finishes rest line (c >>= fun a => pure (f a)) (x >>= fun a => pure (f a)) := by
  cases x with
  | error e => exact Fails.bind h _
  | ok a => exact run_bind_ok h

end

theorem follows_pure (rest line : List Token) (a : α) : Follows rest line (pure a) (.ok (a, line)) :=
  ⟨List.suffix_rfl, rfl⟩

theorem follows_get {f : List Token → Cursor α} {x : Except SyntaxError (α × List Token)}
    (h : Follows rest line (f (line ++ rest)) x) : Follows rest line (get >>= f) x := h

theorem finishes_get {f : List Token → Cursor α} {x : Except SyntaxError α}
    (h : Finishes rest line (f (line ++ rest)) x) : Finishes rest line (get >>= f) x := h

section

variable {t : Token} (ht : t.kind.isInner = true)

include ht

theorem run_advance (rest line : List Token) :
    advance.run.run (t :: line ++ rest) = (.ok (), line ++ rest) :=
  congrArg (Except.ok (), ·) (past_cons_inner ht (line ++ rest))

theorem Follows.cons {c : Cursor α} {x : Except SyntaxError (α × List Token)} (h : Follows rest line c x) :
    Follows rest (t :: line) (do advance; c) x := by
  have hrun := run_advance ht rest line
  cases x with
  | error e => exact Fails.after h (List.suffix_cons t line) hrun
  | ok p => exact ⟨h.1.trans (List.suffix_cons t line), (run_bind_ok hrun).trans h.2⟩

theorem Finishes.cons {c : Cursor α} {x : Except SyntaxError α} (h : Finishes rest line c x) :
    Finishes rest (t :: line) (do advance; c) x := by
  have hrun := run_advance ht rest line
  cases x with
  | error e => exact Fails.after h (List.suffix_cons t line) hrun
  | ok a => exact (run_bind_ok hrun).trans h

end

theorem follows_fail (hline : Inner line) (fault : Option String → SyntaxFault) :
    Follows rest line (fail ending fault : Cursor α) ((LineEnd.ahead ending rest).missing line fault) := by
  refine ⟨line, List.suffix_rfl, ?_⟩
  show (Except.error (SyntaxError.mk (fault (LineEnd.ahead ending (line ++ rest)).found)
    (LineEnd.ahead ending (line ++ rest)).pos), line ++ rest) = _
  rw [ahead_append ending rest hline]

theorem finishes_fail (hline : Inner line) (fault : Option String → SyntaxFault) :
    Finishes rest line (fail ending fault : Cursor α) ((LineEnd.ahead ending rest).missing line fault) :=
  follows_fail (α := α) hline fault

/-! ## Single tokens -/

section

variable (hrest : Stops rest)

include hrest

theorem follows_expect {kind : TokenKind} (hkind : kind.isInner = true) (what : Expectation) (hline : Inner line) :
    Follows rest line (expect ending kind what) ((LineEnd.ahead ending rest).expect kind what line) := by
  refine follows_get ?_
  cases line with
  | nil =>
    rw [List.nil_append, if_neg (hrest.kindAt_ne hkind)]
    exact follows_fail hline _
  | cons t ts =>
    rw [LineEnd.expect, List.cons_append, kindAt]
    split
    · exact (follows_pure rest ts ()).cons hline.head
    · exact follows_fail hline _

theorem follows_expectName (fault : Option String → SyntaxFault) (hline : Inner line) :
    Follows rest line (expectName ending fault) ((LineEnd.ahead ending rest).expectName fault line) := by
  refine follows_get ?_
  cases line with
  | nil =>
    rw [List.nil_append, LineEnd.expectName]
    split
    · next t ts =>
      have hne : t.kind ≠ .identifier := hrest.kindAt_ne rfl
      rw [if_neg hne]
      exact follows_fail hline _
    · exact follows_fail hline _
  | cons t ts =>
    rw [LineEnd.expectName, List.cons_append]
    dsimp only
    split
    · exact (follows_pure rest ts t.raw).cons hline.head
    · exact follows_fail hline _

theorem finishes_expectEnd (hline : Inner line) :
    Finishes rest line (expectEnd ending) ((LineEnd.ahead ending rest).expectEnd line) := by
  refine finishes_get ?_
  cases line with
  | nil =>
    rw [List.nil_append, LineEnd.expectEnd]
    rcases hrest.kindAt with h | h | h
    · rw [h]
      show ((Except.ok (), past rest) : Except SyntaxError Unit × List Token) = (.ok (), pastBreak rest)
      rw [pastBreak, if_pos h]
    all_goals
      rw [h]
      show ((Except.ok (), rest) : Except SyntaxError Unit × List Token) = (.ok (), pastBreak rest)
      rw [pastBreak, if_neg (by rw [h]; decide)]
  | cons t ts =>
    have ht := hline.head
    rw [LineEnd.expectEnd, List.cons_append, kindAt]
    split
    · next h => exact absurd (h ▸ ht) (by decide)
    · next h => exact absurd (h ▸ ht) (by decide)
    · next h => exact absurd (h ▸ ht) (by decide)
    · exact finishes_fail hline _

theorem follows_takeText (hline : Inner line) :
    Follows rest line takeText (.ok (Choice.readText.takeText line)) := by
  refine follows_get ?_
  cases line with
  | nil =>
    rw [List.nil_append, Choice.readText.takeText]
    split
    · next t ts =>
      have hne : t.kind ≠ .text := hrest.kindAt_ne rfl
      rw [if_neg hne]
      exact follows_pure _ _ _
    · exact follows_pure _ _ _
  | cons t ts =>
    rw [Choice.readText.takeText, List.cons_append]
    dsimp only
    split
    · exact (follows_pure rest ts t.content).cons hline.head
    · exact follows_pure _ _ _

end

end Cursor

end Gamebook
