import Mathlib.Logic.Function.Basic
import Rticx.Lib.Machine

/-!
# Processes that share a value

Every process has a state of its own, and a step of it may change that and the value that all of
them share. The steps come in any order: `Processes.machine` takes the step of whatever process is
named.
-/

namespace Rticx.Lib

universe u v w

/-- The step of each process; `none` where it has none. -/
structure Processes (ι : Type u) (σ : Type v) (τ : Type w) where
  step : ι → σ → τ → Option (σ × τ)

namespace Processes

variable {ι : Type u} {σ : Type v} {τ : Type w} [DecidableEq ι] (P : Processes ι σ τ)

/-- All processes together. -/
def machine (shared : σ) (start : ι → τ) : Machine (σ × (ι → τ)) ι where
  init := (shared, start)
  step s i := (P.step i s.1 (s.2 i)).map fun r => (r.1, Function.update s.2 i r.2)

variable {P} {shared : σ} {start : ι → τ} {s t : σ × (ι → τ)} {i : ι} {as : List ι}

theorem machine_step_eq_some : (P.machine shared start).step s i = some t ↔
    ∃ x l, P.step i s.1 (s.2 i) = some (x, l) ∧ t = (x, Function.update s.2 i l) := by
  constructor
  · intro h
    obtain ⟨⟨x, l⟩, hstep, rfl⟩ := Option.map_eq_some_iff.mp h
    exact ⟨x, l, hstep, rfl⟩
  · rintro ⟨x, l, hstep, rfl⟩
    exact Option.map_eq_some_iff.mpr ⟨(x, l), hstep, rfl⟩

/-- **What each process relies on.** Its own step establishes it, and that of another keeps it. -/
theorem rely_step {R : ι → σ → τ → Prop}
    (hown : ∀ x l, R i s.1 (s.2 i) → P.step i s.1 (s.2 i) = some (x, l) → R i x l)
    (hother : ∀ j x l, j ≠ i → R j s.1 (s.2 j) → P.step i s.1 (s.2 i) = some (x, l) →
      R j x (s.2 j))
    (hs : ∀ j, R j s.1 (s.2 j)) (h : (P.machine shared start).step s i = some t) :
    ∀ j, R j t.1 (t.2 j) := by
  obtain ⟨x, l, hstep, rfl⟩ := machine_step_eq_some.mp h
  intro j
  show R j x (Function.update s.2 i l j)
  by_cases hj : j = i
  · subst hj
    rw [Function.update_self]
    exact hown x l (hs j) hstep
  · rw [Function.update_of_ne hj]
    exact hother j x l hj (hs j) hstep

/-- **What each process knows of itself**, its own steps keep along every run. -/
theorem along_keeps {C : σ × (ι → τ) → ι → Prop} {Q : ι → τ → Prop}
    (hstep : ∀ s i x l, C s i → Q i (s.2 i) → P.step i s.1 (s.2 i) = some (x, l) → Q i l)
    (hs : ∀ i, Q i (s.2 i)) (hC : (P.machine shared start).Along C s as)
    (h : (P.machine shared start).exec s as = some t) : ∀ i, Q i (t.2 i) := by
  refine Machine.Along.invariant (P := fun s => ∀ i, Q i (s.2 i)) ?_ hs hC h
  intro s i t hQ hC hst
  exact rely_step (R := fun j _ l => Q j l) (fun x l => hstep s i x l hC) (fun _ _ _ _ hQ _ => hQ)
    hQ hst

/-! ## One process alone -/

variable (P) in
/-- A process takes all steps, and no other takes one. -/
inductive Solo (i : ι) : σ → τ → σ → τ → Prop where
  | refl {x l} : Solo i x l x l
  | step {x l y m z n} : P.step i x l = some (y, m) → Solo i y m z n → Solo i x l z n

theorem Solo.exec {x y : σ} {l m : τ} (h : P.Solo i x l y m) : ∃ n, ∀ locals : ι → τ, locals i = l →
    (P.machine shared start).exec (x, locals) (List.replicate n i) =
      some (y, Function.update locals i m) := by
  induction h with
  | refl => exact ⟨0, fun locals hl => by rw [← hl, Function.update_eq_self]; rfl⟩
  | step hstep _ ih =>
    obtain ⟨n, hn⟩ := ih
    refine ⟨n + 1, fun locals hl => ?_⟩
    rw [List.replicate_succ, Machine.exec_cons_eq_some]
    refine ⟨_, machine_step_eq_some.mpr ⟨_, _, hl ▸ hstep, rfl⟩, ?_⟩
    rw [hn _ (Function.update_self ..), Function.update_idem]

end Processes

end Rticx.Lib
