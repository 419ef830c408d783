/-
# Gamebook.Proofs.Loop — loops that go on only so often

Going over an input in loops ends if every time around takes something of the input or leaves the loop. Here a loop
is given by what one time around does, and it runs on a budget: how often it may go on. A loop that spends more than
its budget has no result (`Loop.run`), so a result shows that the budget was enough.

One rule covers all loops (`Loop.Achieves.exists_run`). If every time around either leaves with a result as it should
be, or goes on from a state with less input left whose results would do as well, then the input left is budget enough,
and the result is as it should be.
-/

namespace Gamebook

/-- One time around a loop: it goes on from a new state or leaves with a result. It comes to nothing if a loop
inside it spends more than its budget. -/
abbrev Loop (σ ρ : Type) := σ → Option (σ ⊕ ρ)

namespace Loop

variable {σ ρ : Type}

/-- Goes on from a state. -/
def again (s : σ) : Option (σ ⊕ ρ) := some (.inl s)

/-- Leaves the loop. -/
def leave (r : ρ) : Option (σ ⊕ ρ) := some (.inr r)

/-- The result of a loop that may go on `budget` times. -/
def run (body : Loop σ ρ) : (budget : Nat) → σ → Option ρ
  | 0, s =>
    match body s with
    | some (.inr r) => some r
    | _ => none
  | budget + 1, s =>
    match body s with
    | some (.inl s) => run body budget s
    | some (.inr r) => some r
    | none => none

/-- The states in which a loop that may go on `budget` times comes around. -/
def states (body : Loop σ ρ) : (budget : Nat) → σ → List σ
  | 0, s => [s]
  | budget + 1, s =>
    match body s with
    | some (.inl s') => s :: states body budget s'
    | _ => [s]

/-- However it is entered, the loop gets closer to its end each time around or leaves, and what is left at the start
is budget enough. -/
structure Bounded (body : Loop σ ρ) (left : σ → Nat) : Prop where
  advances : ∀ s, ∃ o, body s = some o ∧ ∀ s', o = .inl s' → left s' < left s
  ends : ∀ s budget, left s ≤ budget → ∃ r, body.run budget s = some r

/-- Where one time around from `s` may lead, when `Good s r` says that `r` is a good result for `s`. -/
def Leads (left : σ → Nat) (Good : σ → ρ → Prop) (s : σ) : σ ⊕ ρ → Prop
  | .inl s' => left s' < left s ∧ ∀ r, Good s' r → Good s r
  | .inr r => Good s r

/-- Every time around leads to something good. -/
def Achieves (body : Loop σ ρ) (left : σ → Nat) (Good : σ → ρ → Prop) : Prop :=
  ∀ s, ∃ o, body s = some o ∧ Leads left Good s o

section

variable {body : Loop σ ρ} {left : σ → Nat} {Good : σ → ρ → Prop} {s : σ}

theorem states_of_again {s' : σ} (h : body s = again s') (budget : Nat) :
    body.states (budget + 1) s = s :: body.states budget s' := by
  rw [states, h, again]

theorem states_of_leave {r : ρ} (h : body s = leave r) (budget : Nat) : body.states budget s = [s] := by
  cases budget with
  | zero => rfl
  | succ budget => rw [states, h, leave]

theorem leads_of_again (s' : σ) (h : body s = again s') (hleft : left s' < left s)
    (hgood : ∀ r, Good s' r → Good s r) : ∃ o, body s = some o ∧ Leads left Good s o :=
  ⟨.inl s', h, hleft, hgood⟩

theorem leads_of_leave (r : ρ) (h : body s = leave r) (hgood : Good s r) :
    ∃ o, body s = some o ∧ Leads left Good s o :=
  ⟨.inr r, h, hgood⟩

/-- A state may be put off for one that has no more input left and good results for both. -/
theorem Leads.of_le {s' : σ} {o : σ ⊕ ρ} (h : Leads left Good s' o) (hleft : left s' ≤ left s)
    (hgood : ∀ r, Good s' r → Good s r) : Leads left Good s o := by
  cases o with
  | inl s'' => exact ⟨Nat.lt_of_lt_of_le h.1 hleft, fun r hr => hgood r (h.2 r hr)⟩
  | inr r => exact hgood r h

/-- **The rule for loops.** -/
theorem Achieves.exists_run (h : body.Achieves left Good) {budget : Nat} (hbudget : left s ≤ budget) :
    ∃ r, body.run budget s = some r ∧ Good s r := by
  induction budget generalizing s with
  | zero =>
    obtain ⟨o, ho, hleads⟩ := h s
    cases o with
    | inl s' => exact absurd hleads.1 (by omega)
    | inr r =>
      refine ⟨r, ?_, hleads⟩
      rw [run, ho]
  | succ budget ih =>
    obtain ⟨o, ho, hleads⟩ := h s
    cases o with
    | inl s' =>
      obtain ⟨hleft, hgood⟩ := hleads
      have hs' : left s' ≤ budget := by omega
      obtain ⟨r, hr, hr'⟩ := ih hs'
      refine ⟨r, ?_, hgood r hr'⟩
      rw [run, ho]
      exact hr
    | inr r =>
      refine ⟨r, ?_, hleads⟩
      rw [run, ho]

theorem Achieves.bounded (h : body.Achieves left Good) : body.Bounded left := by
  refine ⟨fun s => ?_, fun s budget hbudget => ?_⟩
  · obtain ⟨o, ho, hleads⟩ := h s
    refine ⟨o, ho, ?_⟩
    rintro s' rfl
    exact hleads.1
  · obtain ⟨r, hr, -⟩ := h.exists_run hbudget
    exact ⟨r, hr⟩

end

end Loop

end Gamebook
