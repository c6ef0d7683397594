import Mathlib.Tactic.Common

/-!
# Loops that may run for ever

A `while` loop by its body, which fails, ends the loop or goes on in another state. The loop is run
for a number of rounds; that it returns means that some number of rounds is enough.

* `Loop.Returns` and `Loop.Reaches` say where a loop ends and where it comes by.
* `Loop.exists_returns` is the rule for total correctness: an invariant, and a measure that goes
  down.
* `Loop.not_returns_of_fixed` is the rule for a loop that stands still.
-/

namespace Rticx.Lib.Loop

universe u v

variable {σ : Type u} {ε : Type v} {body : σ → Except ε (Option σ)} {s t u : σ}

/-- Run the loop: `none` when the rounds are not enough. -/
def exec (body : σ → Except ε (Option σ)) : Nat → σ → Option (Except ε σ)
  | 0, _ => none
  | rounds + 1, s =>
    match body s with
    | .error e => some (.error e)
    | .ok none => some (.ok s)
    | .ok (some t) => exec body rounds t

/-- The loop ends, without an error, in this state. -/
def Returns (body : σ → Except ε (Option σ)) (s t : σ) : Prop :=
  ∃ rounds, exec body rounds s = some (.ok t)

/-- The loop comes to this state. -/
inductive Reaches (body : σ → Except ε (Option σ)) (s : σ) : σ → Prop where
  | refl : Reaches body s s
  | step {t u : σ} : Reaches body s t → body t = .ok (some u) → Reaches body s u

theorem returns_of_none (h : body s = .ok none) : Returns body s t ↔ t = s := by
  constructor
  · rintro ⟨rounds, hexec⟩
    cases rounds with
    | zero => cases hexec
    | succ rounds =>
      rw [exec, h] at hexec
      cases hexec
      rfl
  · rintro rfl
    exact ⟨1, by rw [exec, h]⟩

theorem returns_of_some (h : body s = .ok (some u)) : Returns body s t ↔ Returns body u t := by
  constructor
  · rintro ⟨rounds, hexec⟩
    cases rounds with
    | zero => cases hexec
    | succ rounds =>
      rw [exec, h] at hexec
      exact ⟨rounds, hexec⟩
  · rintro ⟨rounds, hexec⟩
    exact ⟨rounds + 1, by rw [exec, h]; exact hexec⟩

theorem not_returns_of_error {e : ε} (h : body s = .error e) : ¬ Returns body s t := by
  rintro ⟨rounds, hexec⟩
  cases rounds with
  | zero => cases hexec
  | succ rounds =>
    rw [exec, h] at hexec
    cases hexec

/-- A round that changes nothing is followed by rounds that change nothing. -/
theorem not_returns_of_fixed (h : body s = .ok (some s)) : ¬ Returns body s t := by
  rintro ⟨rounds, hexec⟩
  induction rounds with
  | zero => cases hexec
  | succ rounds ih =>
    rw [exec, h] at hexec
    exact ih hexec

theorem Reaches.returns_iff (h : Reaches body s u) : Returns body s t ↔ Returns body u t := by
  induction h with
  | refl => rfl
  | step _ hbody ih => rw [ih, returns_of_some hbody]

theorem Returns.reaches (h : Returns body s t) : Reaches body s t ∧ body t = .ok none := by
  obtain ⟨rounds, hexec⟩ := h
  suffices ∀ r, Reaches body s r → exec body rounds r = some (.ok t) →
      Reaches body s t ∧ body t = .ok none from this s .refl hexec
  clear hexec
  induction rounds with
  | zero =>
    intro r _ hexec
    cases hexec
  | succ rounds ih =>
    intro r hr hexec
    rw [exec] at hexec
    split at hexec
    · cases hexec
    · rename_i hbody
      cases hexec
      exact ⟨hr, hbody⟩
    · rename_i hbody
      exact ih _ (hr.step hbody) hexec

/-- What holds at the start and in the next round holds in every round. -/
theorem Reaches.invariant {P : σ → Prop} (hstep : ∀ t u, P t → body t = .ok (some u) → P u)
    (hs : P s) (h : Reaches body s t) : P t := by
  induction h with
  | refl => exact hs
  | step _ hbody ih => exact hstep _ _ ih hbody

/-- **The rule of total correctness.** -/
theorem exists_returns {P : σ → Prop} (measure : σ → Nat)
    (hstep : ∀ t, P t → body t = .ok none ∨ ∃ u, body t = .ok (some u) ∧ P u ∧ measure u < measure t)
    (hs : P s) : ∃ t, Returns body s t ∧ P t := by
  induction hm : measure s using Nat.strongRecOn generalizing s with
  | _ n ih =>
    rcases hstep s hs with hnone | ⟨u, hsome, hu, hlt⟩
    · exact ⟨s, (returns_of_none hnone).mpr rfl, hs⟩
    · obtain ⟨t, ht, hP⟩ := ih (measure u) (hm ▸ hlt) hu rfl
      exact ⟨t, (returns_of_some hsome).mpr ht, hP⟩

end Rticx.Lib.Loop
