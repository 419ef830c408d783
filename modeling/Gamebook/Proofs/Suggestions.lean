/-
# Gamebook.Proofs.Suggestions — which name a hint offers

Two names are as far apart as the edit distance of their lower-case forms (`Suggest.apart`), and a name is offered in
place of another only where the two differ and are not too far apart (`Suggest.Near`). The search keeps the first of
the nearest pairs (`Suggest.nearest_eq_some`), so it finds the earliest candidate of least distance, and it finds one
exactly if a candidate is near enough (`Suggest.closest?_eq_some`, `Suggest.closest?_eq_none_iff`).

A hint for an unknown name is an offer of that candidate or what stands in for an offer (`Suggest.Offers`). Hints are
filled in one diagnostic at a time, from its code alone, and only where there is none, so nothing else changes and a
second time changes nothing (`Diagnostic.suggest_hinted`).
-/
import Mathlib.Data.List.Forall2
import Gamebook.Diagnostic.Suggest
import Gamebook.Proofs.EditDistance
import Gamebook.Proofs.Validation

namespace Gamebook

namespace Suggest

/-! ## Distances -/

/-- How far apart two names are, capitals aside. -/
def apart (a b : String) : Nat := Text.edits (Text.lower a.toList) (Text.lower b.toList)

/-- The candidate is another name, and not too far from this one to have been meant. -/
def Near (name c : String) : Prop := c ≠ name ∧ apart name c ≤ max 2 (name.length / 3)

theorem distance_eq_apart (a b : String) : distance a b = apart a b := Text.editDistance_eq_edits _ _

theorem reach_eq (name : String) : reach name = max 2 (name.length / 3) := Nat.max_comm _ _

instance (name c : String) : Decidable (Near name c) := inferInstanceAs (Decidable (_ ∧ _))

/-- The candidate with its distance, if it is near enough. -/
def pair? (name c : String) : Option (String × Nat) := if Near name c then some (c, apart name c) else none

theorem pair?_eq_some_iff {name c : String} {e : String × Nat} :
    pair? name c = some e ↔ Near name c ∧ e = (c, apart name c) := by
  rw [pair?, Option.ite_none_right_eq_some, Option.some.injEq, eq_comm]

theorem inReach_eq_filterMap (name : String) (candidates : List String) :
    inReach name candidates = candidates.filterMap (pair? name) := by
  simp only [inReach, distance_eq_apart, reach_eq]
  induction candidates with
  | nil => rfl
  | cons c cs ih =>
    simp only [List.filter_cons, decide_eq_true_eq]
    by_cases hnear : Near name c
    · have hpair : pair? name c = some (c, apart name c) := if_pos hnear
      rw [List.filterMap_cons_some hpair, ← ih, if_pos hnear.1, List.map_cons, List.filter_cons,
        if_pos (decide_eq_true hnear.2)]
    · have hpair : pair? name c = none := if_neg hnear
      rw [List.filterMap_cons_none hpair, ← ih]
      by_cases hne : c ≠ name
      · have hfar : ¬ apart name c ≤ max 2 (name.length / 3) := fun hle => hnear ⟨hne, hle⟩
        rw [if_pos hne, List.map_cons, List.filter_cons, if_neg (by rwa [decide_eq_true_eq])]
      · rw [if_neg hne]

theorem mem_inReach {name c : String} {candidates : List String} (hc : c ∈ candidates) (hnear : Near name c) :
    (c, apart name c) ∈ inReach name candidates := by
  rw [inReach_eq_filterMap]
  exact List.mem_filterMap.mpr ⟨c, hc, if_pos hnear⟩

/-- A pair in reach comes from a candidate that is near, and the pairs around it from the candidates around that. -/
theorem exists_of_inReach_eq_append {name : String} {candidates : List String} {before after : List (String × Nat)}
    {e : String × Nat} (h : inReach name candidates = before ++ e :: after) :
    ∃ front c back, candidates = front ++ c :: back ∧ Near name c ∧ e = (c, apart name c) ∧
      inReach name front = before ∧ inReach name back = after := by
  simp only [inReach_eq_filterMap] at h ⊢
  obtain ⟨front, rest, rfl, hfront, hrest⟩ := List.filterMap_eq_append_iff.mp h
  obtain ⟨skipped, c, back, rfl, hskipped, hc, hback⟩ := List.filterMap_eq_cons_iff.mp hrest
  obtain ⟨hnear, he⟩ := pair?_eq_some_iff.mp hc
  refine ⟨front ++ skipped, c, back, (List.append_assoc _ _ _).symm, hnear, he, ?_, hback⟩
  rw [List.filterMap_append, hfront, List.filterMap_eq_nil_iff.mpr hskipped, List.append_nil]

/-! ## The first of the nearest -/

theorem nearest_eq_none_iff {cs : List (String × Nat)} : nearest cs = none ↔ cs = [] := by
  cases cs with
  | nil => simp [nearest]
  | cons c cs =>
    simp only [nearest, reduceCtorEq, iff_false]
    split
    · simp
    · split <;> simp

/-- The pairs before the nearest one are farther off, and those after it are no nearer. -/
theorem nearest_eq_some {cs : List (String × Nat)} {c : String × Nat} (h : nearest cs = some c) :
    ∃ before after, cs = before ++ c :: after ∧ (∀ d ∈ before, c.2 < d.2) ∧ ∀ d ∈ after, c.2 ≤ d.2 := by
  induction cs generalizing c with
  | nil => simp [nearest] at h
  | cons b cs ih =>
    rw [nearest] at h
    cases hcs : nearest cs with
    | none =>
      rw [nearest_eq_none_iff] at hcs
      subst hcs
      simp only [nearest, Option.some.injEq] at h
      subst h
      exact ⟨[], [], rfl, by simp, by simp⟩
    | some d =>
      obtain ⟨before, after, rfl, hbefore, hafter⟩ := ih hcs
      simp only [hcs] at h
      split at h
      · next hlt =>
        cases h
        refine ⟨b :: before, after, rfl, ?_, hafter⟩
        exact List.forall_mem_cons.mpr ⟨hlt, hbefore⟩
      · next hge =>
        cases h
        have hle : b.2 ≤ d.2 := Nat.le_of_not_lt hge
        refine ⟨[], before ++ d :: after, rfl, by simp, ?_⟩
        intro e he
        rcases List.mem_append.mp he with he | he
        · exact Nat.le_trans hle (Nat.le_of_lt (hbefore e he))
        · rcases List.mem_cons.mp he with rfl | he
          · exact hle
          · exact Nat.le_trans hle (hafter e he)

/-! ## The closest candidate -/

/-- The candidate is the earliest of those that are nearest to the name, the name itself left out. -/
structure Closest (name : String) (candidates : List String) (c : String) : Prop where
  ne : c ≠ name
  least : ∀ d ∈ candidates, d ≠ name → apart name c ≤ apart name d
  first : ∃ before after, candidates = before ++ c :: after ∧ ∀ d ∈ before, d ≠ name → apart name c < apart name d

/-- A candidate that is farther than the reach of a name is farther than one that is near it. -/
theorem Near.lt_of_not {name c d : String} (hc : Near name c) (hd : ¬ Near name d) (hne : d ≠ name) :
    apart name c < apart name d :=
  Nat.lt_of_le_of_lt hc.2 (Nat.lt_of_not_le fun hle => hd ⟨hne, hle⟩)

theorem closest?_eq_some {name : String} {candidates : List String} {c : String}
    (h : closest? name candidates = some c) : Closest name candidates c ∧ Near name c := by
  obtain ⟨e, hnearest, rfl⟩ := Option.map_eq_some_iff.mp h
  obtain ⟨before, after, hsplit, hbefore, hafter⟩ := nearest_eq_some hnearest
  obtain ⟨front, c, back, rfl, hnear, rfl, rfl, rfl⟩ := exists_of_inReach_eq_append hsplit
  -- What is not near is farther anyway, so only the candidates in reach matter.
  have hfront : ∀ d ∈ front, d ≠ name → apart name c < apart name d := by
    intro d hd hne
    by_cases hdnear : Near name d
    · exact hbefore _ (mem_inReach hd hdnear)
    · exact hnear.lt_of_not hdnear hne
  have hback : ∀ d ∈ back, d ≠ name → apart name c ≤ apart name d := by
    intro d hd hne
    by_cases hdnear : Near name d
    · exact hafter _ (mem_inReach hd hdnear)
    · exact Nat.le_of_lt (hnear.lt_of_not hdnear hne)
  refine ⟨⟨hnear.1, ?_, front, back, rfl, hfront⟩, hnear⟩
  intro d hd hne
  rcases List.mem_append.mp hd with hd | hd
  · exact Nat.le_of_lt (hfront d hd hne)
  · rcases List.mem_cons.mp hd with rfl | hd
    · exact Nat.le_refl _
    · exact hback d hd hne

-- Of two names that are one letter away, the earlier one.
example : closest? "Cavern" ["Cavern", "cave", "Tavern", "caverns"] = some "Tavern" := by decide

theorem closest?_eq_none_iff {name : String} {candidates : List String} :
    closest? name candidates = none ↔ ∀ c ∈ candidates, ¬ Near name c := by
  rw [closest?, Option.map_eq_none_iff, nearest_eq_none_iff, inReach_eq_filterMap, List.filterMap_eq_nil_iff]
  simp only [pair?, ite_eq_right_iff, reduceCtorEq, imp_false]

/-! ## Offers -/

/-- The hint offers a candidate exactly if one is near enough, and then the closest; otherwise it is the fallback. -/
structure Offers (name : String) (candidates : List String) (offer : String → String)
    (fallback hint : Option String) : Prop where
  offered : (∃ c, hint = some (offer c)) ↔ ∃ c ∈ candidates, Near name c
  closest : ∀ c, hint = some (offer c) → Closest name candidates c
  otherwise : (∀ c ∈ candidates, ¬ Near name c) → hint = fallback

/-- **The closest candidate, offered in words that tell all candidates and the fallback apart.** -/
theorem offers_closest? (name : String) (candidates : List String) (offer : String → String)
    (fallback : Option String) (hinjective : ∀ c d, offer c = offer d → c = d)
    (hfallback : ∀ c, fallback ≠ some (offer c)) :
    Offers name candidates offer fallback (((closest? name candidates).map offer).or fallback) := by
  cases hclosest : closest? name candidates with
  | none =>
    have hfar := closest?_eq_none_iff.mp hclosest
    refine ⟨⟨?_, ?_⟩, ?_, fun _ => rfl⟩
    · rintro ⟨c, hc⟩
      exact absurd hc (hfallback c)
    · rintro ⟨c, hc, hnear⟩
      exact absurd hnear (hfar c hc)
    · intro c hc
      exact absurd hc (hfallback c)
  | some c =>
    obtain ⟨hc, hnear⟩ := closest?_eq_some hclosest
    obtain ⟨before, after, hsplit, -⟩ := hc.first
    have hmem : c ∈ candidates := by simp [hsplit]
    refine ⟨⟨fun _ => ⟨c, hmem, hnear⟩, fun _ => ⟨c, rfl⟩⟩, ?_, ?_⟩
    · intro d hd
      rwa [← hinjective c d (Option.some.inj hd)]
    · intro hfar
      exact absurd hnear (hfar c hmem)

theorem offers_passage (passages assigned : List String) (name : String) :
    Offers name passages (fun c => "did you mean '" ++ c ++ "'?") none
      (hint? passages assigned (.unknownPassage name)) := by
  have hoffers := offers_closest? name passages (fun c => "did you mean '" ++ c ++ "'?") none
    (fun c d h => by simpa using h) (fun c => by simp)
  rwa [Option.or_none] at hoffers

theorem offers_assigned (passages assigned : List String) (name : String) :
    Offers name assigned (fun c => "did you mean '$" ++ c ++ "'?")
      (some ("assign it before reading it, e.g. '$" ++ name ++ " = 0'"))
      (hint? passages assigned (.unassignedVariable name)) := by
  -- The advice begins with another letter than every offer.
  have hadvice : ∀ c, some ("assign it before reading it, e.g. '$" ++ name ++ " = 0'") ≠
      some ("did you mean '$" ++ c ++ "'?") := by
    intro c h
    have hfirst := congrArg (fun t : String => t.toList.head?) (Option.some.inj h)
    simp at hfirst
  have hoffers := offers_closest? name assigned (fun c => "did you mean '$" ++ c ++ "'?") _
    (fun c d h => by simpa using h) hadvice
  rw [hint?]
  cases hclosest : closest? name assigned <;> rwa [hclosest] at hoffers

end Suggest

/-! ## Filling in the hints -/

namespace Diagnostic

/-- The diagnostic `d'` is `d` with the hint that the story gives it, if it had none. -/
structure Hinted (s : Story) (d d' : Diagnostic) : Prop where
  same : d' = { d with suggestion := d'.suggestion }
  kept : ∀ hint, d.suggestion = some hint → d'.suggestion = some hint
  passage : ∀ name, d.code = .unknownPassage name → d.suggestion = none →
    Suggest.Offers name s.names (fun c => "did you mean '" ++ c ++ "'?") none d'.suggestion
  assigned : ∀ name, d.code = .unassignedVariable name → d.suggestion = none →
    Suggest.Offers name s.assigned.names (fun c => "did you mean '$" ++ c ++ "'?")
      (some ("assign it before reading it, e.g. '$" ++ name ++ " = 0'")) d'.suggestion

/-- One diagnostic with its hint filled in. -/
def hinted (s : Story) (d : Diagnostic) : Diagnostic :=
  { d with suggestion := d.suggestion.or (Suggest.hint? s.names s.assigned.names d.code) }

theorem suggest_eq_map (ds : List Diagnostic) (s : Story) : suggest ds s = ds.map (hinted s) := by
  refine List.map_congr_left fun d _ => ?_
  split
  · next hint h =>
    rw [hinted, h, Option.some_or, ← h]
  · next h =>
    rw [hinted, h, Option.none_or]

theorem suggestion_hinted {s : Story} {d : Diagnostic} (h : d.suggestion = none) :
    (hinted s d).suggestion = Suggest.hint? s.names s.assigned.names d.code := by
  rw [hinted, h, Option.none_or]

theorem hinted_spec (s : Story) (d : Diagnostic) : Hinted s d (hinted s d) where
  same := rfl
  kept hint h := by rw [hinted, h, Option.some_or]
  passage name hcode h := by
    rw [suggestion_hinted h, hcode]
    exact Suggest.offers_passage _ _ name
  assigned name hcode h := by
    rw [suggestion_hinted h, hcode]
    exact Suggest.offers_assigned _ _ name

/-- A second hint is the first one. -/
theorem hinted_hinted (s : Story) (d : Diagnostic) : hinted s (hinted s d) = hinted s d := by
  simp only [hinted, Option.or_assoc, Option.or_self]

/-- **Hints name the closest candidate and change nothing else.** The candidates for a passage are the passages of
the story in order, and those for a variable the assigned ones in alphabetical order. -/
theorem suggest_hinted (ds : List Diagnostic) (s : Story) :
    List.Forall₂ (Hinted s) ds (suggest ds s) ∧
      (s.assigned.names.Pairwise (· < ·) ∧ ∀ v, v ∈ s.assigned.names ↔
        ∃ p ∈ s.passages, ∃ n : Node, n.Occurs p.body ∧ n.assigned? = some v) ∧
      suggest (suggest ds s) s = suggest ds s := by
  refine ⟨?_, ⟨s.assigned.ordered, fun v => Story.mem_assigned_iff⟩, ?_⟩
  · rw [suggest_eq_map, List.forall₂_map_right_iff, List.forall₂_same]
    exact fun d _ => hinted_spec s d
  · rw [suggest_eq_map, suggest_eq_map, List.map_map]
    exact List.map_congr_left fun d _ => hinted_hinted s d

end Diagnostic

end Gamebook
