/-
# Gamebook.Proofs.Reading.Incident — what is noted while a passage is read

Incidents are only ever appended: what an assembly does with a line does not depend on what it has noted before
(`Assembly.foldl_line_after`).

Where they come from is `Incident.Arises`. An incident that is about a line covers the whole line, with two
exceptions. A conditional that is nested too deep is noted for its own sake, and what follows its
closing marker is read as if it were a line: an incident there looks at that part of the line alone, and the
conditional has been noted before it.
-/
import Gamebook.Proofs.Reading.Line
import Gamebook.Proofs.Reading.Place

namespace Gamebook

/-- A line is reported unless it holds an invalid token. -/
theorem Incident.reported?_ofLine (ts : List Token) (e : SyntaxError) :
    (Incident.ofLine ts e).reported? = if ts.any fun t => t.kind.isInvalid then none else some e := by
  rw [ofLine, reported?]
  cases ts.any fun t => t.kind.isInvalid <;> rfl

namespace Assembly

/-! ## Incidents are appended -/

section

variable {a : Assembly} {stop : LineEnd}

/-- The same state with other incidents before its own. -/
def after (a : Assembly) (earlier : Array Incident) : Assembly :=
  { a with incidents := earlier ++ a.incidents }

variable (earlier : Array Incident)

theorem note_after (i : Incident) : (a.after earlier).note i = (a.note i).after earlier := by
  simp [note, after]

theorem mark_after (m : Marker) (pos : Position) :
    (a.after earlier).mark m pos = (a.mark m pos).after earlier := by
  obtain ⟨nodes, frames, skipping, incidents⟩ := a
  cases frames with
  | nil => rfl
  | cons f fs =>
    cases m with
    | close => rfl
    | otherwise =>
      simp only [mark, after]
      cases f.first <;> rfl

theorem readLine_after (a : Assembly) (ts : List Token) :
    (a.after earlier).readLine stop ts = (a.readLine stop ts).after earlier := by
  refine readLine_induction (motive := fun a ts r => (a.after earlier).readLine stop ts = r.after earlier)
    ?nil ?marker ?condition ?statement ?skipped ?resumed a ts
  case nil =>
    intro a
    exact readLine_nil _ stop
  case marker =>
    intro a t ts m hm
    rw [readLine_marker hm, markerLine, markerLine]
    split
    · exact mark_after earlier m t.pos
    · rw [note_after]
      exact mark_after earlier m t.pos
  case condition =>
    intro a t ts hbrace hdepth
    have hdepth : (a.after earlier).frames.length < maxNesting := hdepth
    rw [readLine_condition hbrace hdepth, conditionLine, conditionLine]
    split
    · rfl
    · rw [note_after]
      rfl
  case statement =>
    intro a t ts hmarker hbrace
    rw [readLine_statement hmarker hbrace, statementLine, statementLine]
    split
    · rfl
    · exact note_after earlier _
  case skipped =>
    intro a t ts waiting hbrace hdepth hskip
    have hdepth : maxNesting ≤ (a.after earlier).frames.length := hdepth
    rw [readLine_skipped hbrace hdepth hskip, note_after]
    rfl
  case resumed =>
    intro a t ts rest hbrace hdepth hskip ih
    have hdepth : maxNesting ≤ (a.after earlier).frames.length := hdepth
    rw [readLine_resumed hbrace hdepth hskip, note_after]
    exact ih

theorem line_after (a : Assembly) (l : Line) : (a.after earlier).line l = (a.line l).after earlier := by
  obtain ⟨nodes, frames, skipping, incidents⟩ := a
  cases skipping with
  | none => exact readLine_after earlier ⟨nodes, frames, none, incidents⟩ l.tokens
  | some waiting =>
    simp only [line, after]
    split
    · rfl
    · next rest hskip => exact readLine_after earlier ⟨nodes, frames, none, incidents⟩ rest

theorem foldl_line_after (a : Assembly) (ls : List Line) :
    ls.foldl line (a.after earlier) = (ls.foldl line a).after earlier := by
  induction ls generalizing a with
  | nil => rfl
  | cons l ls ih => rw [List.foldl_cons, List.foldl_cons, line_after, ih]

/-- The state without its incidents. -/
def quiet (a : Assembly) : Assembly := { a with incidents := #[] }

theorem quiet_after (a : Assembly) : a.quiet.after a.incidents = a := by
  simp [quiet, after]

theorem note_quiet (a : Assembly) (i : Incident) : a.quiet.note i = a.quiet.after #[i] := by
  simp [quiet, after, note]

end

end Assembly

/-! ## How incidents arise -/

/-- The parts of a line that are read as a line: all of it, and what follows the closing marker of a
conditional that was skipped, as `skips` says some was. -/
inductive Line.Part (l : Line) (skips : Prop) : List Token → Prop
  | whole : l.Part skips l.tokens
  | rest {t : Token} {ts : List Token} (hclose : t.kind = .marker .close) (hts : t :: ts <:+ l.tokens)
      (hskips : skips) : l.Part skips ts

/-- How an incident can arise on a line. -/
inductive Incident.Arises (l : Line) (skips : Prop) : Incident → Prop
  /-- A part of the line cannot be read. -/
  | unread {part : List Token} {e : SyntaxError} (hpart : l.Part skips part) (he : l.stop.Locates part e) :
      Arises l skips (.ofLine part e)
  /-- A conditional, with which a part of the line begins, is nested too deep. -/
  | tooDeep {t : Token} {ts : List Token} (hbrace : t.kind = .opening .brace) (hpart : l.Part skips (t :: ts)) :
      Arises l skips (.tooDeep t)
  /-- The line is no metadata and stands before the first passage. -/
  | outside {t : Token} {ts : List Token} (hts : l.tokens = t :: ts) :
      Arises l skips ⟨⟨.contentOutsidePassage, t.pos⟩, .structural⟩

section

variable {l : Line} {skips skips' : Prop}

theorem Line.Part.suffix {part : List Token} (h : l.Part skips part) : part <:+ l.tokens := by
  cases h with
  | whole => exact List.suffix_rfl
  | rest hclose hts hskips => exact (List.suffix_cons _ part).trans hts

/-- A part begins the line or follows a closing marker. -/
theorem Line.Part.exists_front {part : List Token} (h : l.Part skips part) :
    ∃ front, l.tokens = front ++ part ∧ ∀ t ∈ front.getLast?, t.kind = .marker .close := by
  cases h with
  | whole => exact ⟨[], rfl, nofun⟩
  | @rest t _ hclose hts hskips =>
    obtain ⟨front, hfront⟩ := hts
    refine ⟨front ++ [t], by rw [← hfront, List.append_assoc]; rfl, fun u hu => ?_⟩
    rw [List.getLast?_concat] at hu
    cases hu
    exact hclose

theorem Line.Part.mono {part : List Token} (h : l.Part skips part) (himp : skips → skips') :
    l.Part skips' part := by
  cases h with
  | whole => exact .whole
  | rest hclose hts hskips => exact .rest hclose hts (himp hskips)

theorem Incident.Arises.mono {i : Incident} (h : i.Arises l skips) (himp : skips → skips') :
    i.Arises l skips' := by
  cases h with
  | unread hpart he => exact .unread (hpart.mono himp) he
  | tooDeep hbrace hpart => exact .tooDeep hbrace (hpart.mono himp)
  | outside hts => exact .outside hts

end

namespace Assembly

/-- A conditional that is nested too deep has been noted. -/
def Skips (a : Assembly) : Prop := ∃ t, Incident.tooDeep t ∈ a.incidents

theorem mark_incidents (a : Assembly) (m : Marker) (pos : Position) :
    (a.mark m pos).incidents = a.incidents ∧ (a.mark m pos).skipping = a.skipping := by
  obtain ⟨nodes, frames, skipping, incidents⟩ := a
  cases frames with
  | nil => exact ⟨rfl, rfl⟩
  | cons f fs =>
    cases m with
    | close => exact ⟨rfl, rfl⟩
    | otherwise =>
      simp only [mark]
      cases f.first <;> exact ⟨rfl, rfl⟩

/-- A conditional that is nested too deep has been noted before the incident. -/
def SkipsBefore (a : Assembly) (i : Incident) : Prop := ∃ t, [Incident.tooDeep t, i].Sublist a.incidents.toList

/-- While something is skipped it has been noted, and every incident has arisen on one of the lines. -/
structure Accounts (ls : List Line) (a : Assembly) : Prop where
  skipping : a.skipping.isSome = true → a.Skips
  arises : ∀ i ∈ a.incidents, ∃ l ∈ ls, i.Arises l (a.SkipsBefore i)

section

variable {ls : List Line} {a b : Assembly}

/-- Only what is noted and whether something is skipped matter. -/
theorem Accounts.congr (h : a.Accounts ls) (hincidents : b.incidents = a.incidents)
    (hskipping : b.skipping = a.skipping) : b.Accounts ls := by
  obtain ⟨nodes, frames, skipping, incidents⟩ := b
  cases hincidents
  cases hskipping
  exact ⟨h.skipping, h.arises⟩

theorem Accounts.mark (h : a.Accounts ls) (m : Marker) (pos : Position) : (a.mark m pos).Accounts ls :=
  h.congr (mark_incidents a m pos).1 (mark_incidents a m pos).2

theorem Skips.note (h : a.Skips) (i : Incident) : (a.note i).Skips := by
  obtain ⟨t, ht⟩ := h
  exact ⟨t, Array.mem_push_of_mem i ht⟩

theorem Skips.before (h : a.Skips) (i : Incident) : (a.note i).SkipsBefore i := by
  obtain ⟨t, ht⟩ := h
  refine ⟨t, ?_⟩
  rw [Assembly.note, Array.toList_push]
  exact (List.singleton_sublist.mpr (Array.mem_toList_iff.mpr ht)).append (List.Sublist.refl [i])

theorem SkipsBefore.note {j : Incident} (h : a.SkipsBefore j) (i : Incident) : (a.note i).SkipsBefore j := by
  obtain ⟨t, ht⟩ := h
  refine ⟨t, ht.trans ?_⟩
  rw [Assembly.note, Array.toList_push]
  exact List.sublist_append_left _ _

theorem Accounts.note (h : a.Accounts ls) {l : Line} (hl : l ∈ ls) {i : Incident} (hi : i.Arises l a.Skips) :
    (a.note i).Accounts ls := by
  refine ⟨fun hskipping => (h.skipping hskipping).note i, fun j hj => ?_⟩
  rcases Array.mem_push.mp hj with hj | rfl
  · obtain ⟨l', hl', harises⟩ := h.arises j hj
    exact ⟨l', hl', harises.mono fun hskips => hskips.note i⟩
  · exact ⟨l, hl, hi.mono fun hskips => hskips.before _⟩

/-- Reading a part of a line, while nothing is skipped. -/
theorem Accounts.readLine (h : a.Accounts ls) {l : Line} (hl : l ∈ ls) (hskipping : a.skipping = none)
    {part : List Token} (hpart : l.Part a.Skips part) : (a.readLine l.stop part).Accounts ls := by
  -- An error of the part is noted with the part as its tokens.
  have hunread : ∀ {a : Assembly} {ts : List Token} {e : SyntaxError}, a.Accounts ls → l.Part a.Skips ts →
      l.stop.Locates ts e → (a.note (.ofLine ts e)).Accounts ls :=
    fun ha hts he => ha.note hl (.unread hts he)
  refine readLine_induction
    (motive := fun a ts r => a.Accounts ls → a.skipping = none → l.Part a.Skips ts → r.Accounts ls)
    ?nil ?marker ?condition ?statement ?skipped ?resumed a part h hskipping hpart
  case nil => exact fun a ha _ _ => ha
  case marker =>
    intro a t ts m hm ha hskipping hpart
    rw [markerLine]
    split
    · exact ha.mark m t.pos
    · next e he =>
      have hplace : l.stop.Holds ts (l.stop.expectEnd ts) := LineEnd.holds_expectEnd ts
      rw [he] at hplace
      exact (hunread ha hpart (hplace.mono (List.suffix_cons t ts))).mark m t.pos
  case condition =>
    intro a t ts hbrace hdepth ha hskipping hpart
    rw [conditionLine]
    split
    · exact ha.congr rfl rfl
    · next e he =>
      have hplace : l.stop.Holds ts (Node.readCondition l.stop ts) := Node.holds_readCondition ts
      rw [he] at hplace
      exact (hunread ha hpart (hplace.mono (List.suffix_cons t ts))).congr rfl rfl
  case statement =>
    intro a t ts hmarker hbrace ha hskipping hpart
    rw [statementLine]
    split
    · exact ha.congr rfl rfl
    · next e he =>
      have hplace : l.stop.Holds (t :: ts) (Node.read l.stop t ts) := Node.holds_read t ts
      rw [he] at hplace
      exact hunread ha hpart hplace
  case skipped =>
    intro a t ts waiting hbrace hdepth hskip ha hskipping hpart
    have hnoted := ha.note hl (.tooDeep hbrace hpart)
    exact ⟨fun _ => ⟨t, Array.mem_push_self⟩, hnoted.arises⟩
  case resumed =>
    intro a t ts rest hbrace hdepth hskip ih ha hskipping hpart
    obtain ⟨u, hclose, hu⟩ := close_of_skip hskip
    exact ih (ha.note hl (.tooDeep hbrace hpart)) hskipping
      (.rest hclose (hu.trans hpart.suffix) ⟨t, Array.mem_push_self⟩)

theorem Accounts.line (h : a.Accounts ls) {l : Line} (hl : l ∈ ls) : (a.line l).Accounts ls := by
  rw [Assembly.line]
  split
  · next hskipping => exact h.readLine hl hskipping .whole
  · next waiting hskipping =>
    have hskips : a.Skips := h.skipping (by rw [hskipping]; rfl)
    split
    · exact ⟨fun _ => hskips, h.arises⟩
    · next rest hskip =>
      obtain ⟨u, hclose, hu⟩ := close_of_skip hskip
      have hresumed : Accounts ls { a with skipping := none } := ⟨nofun, h.arises⟩
      exact hresumed.readLine hl rfl (.rest hclose hu hskips)

theorem accounts_ofLines (ls : List Line) : (ofLines ls).Accounts ls := by
  refine List.foldlRecOn ls Assembly.line (b := Assembly.empty) ?_ fun a ha l hl => ha.line hl
  exact ⟨nofun, fun i hi => absurd hi (Array.not_mem_empty i)⟩

end

end Assembly

end Gamebook
