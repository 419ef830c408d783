/-
# Gamebook.Proofs.Reading.Line — the ways to read a line of a passage

A line is read in one of a few ways, and `Assembly.readLine_induction` lists them, so a fact about all lines
needs one look at each. Most lines are done in one step. A conditional that is nested too deep is skipped, and
what is left of the line behind its closing marker is read as a line again.
-/
import Gamebook.Story.Assembly

namespace Gamebook

/-- The incident of a conditional that is nested too deep. -/
def Incident.tooDeep (t : Token) : Incident := ⟨⟨.nestingTooDeep, t.pos⟩, .structural⟩

namespace Assembly

/-! ## Skipping -/

/-- What is left of a line after skipping follows a closing marker. -/
theorem close_of_skip {waiting : Nat} {atStart : Bool} {ts rest : List Token}
    (h : skip waiting atStart ts = .inr rest) : ∃ t, t.kind = .marker .close ∧ t :: rest <:+ ts := by
  induction ts generalizing waiting atStart with
  | nil => cases h
  | cons t ts ih =>
    have hlater : (∃ u, u.kind = .marker .close ∧ u :: rest <:+ ts) →
        ∃ u, u.kind = .marker .close ∧ u :: rest <:+ t :: ts := by
      rintro ⟨u, hclose, hu⟩
      exact ⟨u, hclose, hu.trans (List.suffix_cons t ts)⟩
    rw [skip] at h
    split at h
    · exact hlater (ih h)
    · next hclose =>
      split at h
      · cases h
        exact ⟨t, hclose, List.suffix_rfl⟩
      · exact hlater (ih h)
    · exact hlater (ih h)

/-- What is left of a line after skipping is the end of it. -/
theorem suffix_of_skip {waiting : Nat} {atStart : Bool} {ts rest : List Token}
    (h : skip waiting atStart ts = .inr rest) : rest <:+ ts := by
  obtain ⟨t, -, hrest⟩ := close_of_skip h
  exact (List.suffix_cons t rest).trans hrest

/-! ## Lines -/

section

variable {a : Assembly} {stop : LineEnd} {t : Token} {ts : List Token}

theorem readLine_nil (a : Assembly) (stop : LineEnd) : a.readLine stop [] = a := by rw [readLine]

theorem readLine_marker {m : Marker} (h : t.kind = .marker m) :
    a.readLine stop (t :: ts) = a.markerLine stop m t ts := by
  rw [readLine, h]

theorem readLine_condition (h : t.kind = .opening .brace) (hdepth : a.frames.length < maxNesting) :
    a.readLine stop (t :: ts) = a.conditionLine stop t ts := by
  rw [readLine, h]
  exact if_neg (Nat.not_le.mpr hdepth)

theorem readLine_statement (hmarker : ∀ m, t.kind ≠ .marker m) (hbrace : t.kind ≠ .opening .brace) :
    a.readLine stop (t :: ts) = a.statementLine stop t ts := by
  rw [readLine]
  split
  · next m hm => exact absurd hm (hmarker m)
  · next hb => exact absurd hb hbrace
  · rfl

/-- A conditional that is nested too deep is noted and skipped, to the end of the line or to its closing marker. -/
theorem readLine_tooDeep (h : t.kind = .opening .brace) (hdepth : maxNesting ≤ a.frames.length) :
    a.readLine stop (t :: ts) =
      match skip 0 true (t :: ts) with
      | .inl waiting => { a.note (.tooDeep t) with skipping := some waiting }
      | .inr rest => (a.note (.tooDeep t)).readLine stop rest := by
  rw [readLine, h]
  simp only [if_pos hdepth]
  split
  · next hskip =>
    rw [hskip]
    rfl
  · next hskip =>
    rw [hskip]
    rfl

theorem readLine_skipped (h : t.kind = .opening .brace) (hdepth : maxNesting ≤ a.frames.length)
    {waiting : Nat} (hskip : skip 0 true (t :: ts) = .inl waiting) :
    a.readLine stop (t :: ts) = { a.note (.tooDeep t) with skipping := some waiting } := by
  rw [readLine_tooDeep h hdepth, hskip]

theorem readLine_resumed (h : t.kind = .opening .brace) (hdepth : maxNesting ≤ a.frames.length)
    {rest : List Token} (hskip : skip 0 true (t :: ts) = .inr rest) :
    a.readLine stop (t :: ts) = (a.note (.tooDeep t)).readLine stop rest := by
  rw [readLine_tooDeep h hdepth, hskip]

end

/-- The ways to read a line. The last two skip a conditional that is nested too deep, to the end of the line
or to a closing marker on it. -/
theorem readLine_induction {motive : Assembly → List Token → Assembly → Prop} {stop : LineEnd}
    (nil : ∀ a, motive a [] a)
    (marker : ∀ a t ts m, t.kind = .marker m → motive a (t :: ts) (a.markerLine stop m t ts))
    (condition : ∀ a t ts, t.kind = .opening .brace → a.frames.length < maxNesting →
      motive a (t :: ts) (a.conditionLine stop t ts))
    (statement : ∀ a t ts, (∀ m, t.kind ≠ .marker m) → t.kind ≠ .opening .brace →
      motive a (t :: ts) (a.statementLine stop t ts))
    (skipped : ∀ a t ts waiting, t.kind = .opening .brace → maxNesting ≤ a.frames.length →
      skip 0 true (t :: ts) = .inl waiting →
      motive a (t :: ts) { a.note (.tooDeep t) with skipping := some waiting })
    (resumed : ∀ a t ts rest, t.kind = .opening .brace → maxNesting ≤ a.frames.length →
      skip 0 true (t :: ts) = .inr rest →
      motive (a.note (.tooDeep t)) rest ((a.note (.tooDeep t)).readLine stop rest) →
      motive a (t :: ts) ((a.note (.tooDeep t)).readLine stop rest))
    (a : Assembly) (ts : List Token) : motive a ts (a.readLine stop ts) := by
  induction hn : ts.length using Nat.strongRecOn generalizing a ts with
  | ind n ih =>
    cases ts with
    | nil =>
      rw [readLine_nil]
      exact nil a
    | cons t ts =>
      by_cases hmarker : ∃ m, t.kind = .marker m
      · obtain ⟨m, hm⟩ := hmarker
        rw [readLine_marker hm]
        exact marker a t ts m hm
      rw [not_exists] at hmarker
      by_cases hbrace : t.kind = .opening .brace
      · by_cases hdepth : maxNesting ≤ a.frames.length
        · cases hskip : skip 0 true (t :: ts) with
          | inl waiting =>
            rw [readLine_skipped hbrace hdepth hskip]
            exact skipped a t ts waiting hbrace hdepth hskip
          | inr rest =>
            rw [readLine_resumed hbrace hdepth hskip]
            have hlt : rest.length < n := hn ▸ length_lt_of_skip hskip
            exact resumed a t ts rest hbrace hdepth hskip (ih rest.length hlt _ rest rfl)
        · rw [readLine_condition hbrace (Nat.not_le.mp hdepth)]
          exact condition a t ts hbrace (Nat.not_le.mp hdepth)
      · rw [readLine_statement hmarker hbrace]
        exact statement a t ts hmarker hbrace

end Assembly

end Gamebook
