import Mathlib.Tactic.Common

/-!
# State machines with a partial step

A machine has one initial state and a step function that an action enables or not. All
nondeterminism is in the choice of the actions, so a machine can be executed.

* `Machine.exec` runs a list of actions.
* `Machine.Reachable` is the set of states some list of actions leads to; its induction
  principle is the invariant rule.
* `Machine.exec_length_le` and `Machine.exists_exec` are the rules of progress, for a measure that the
  actions of a kind decrease.
* `Machine.Simulates` relates a machine to one that takes coarser steps.
* `Machine.Along` says that every step of a run is taken in a state that meets a condition.
* `Machine.withHistory` and `Machine.withEvents` note down what happened, and do not change what can
  happen.
-/

namespace Rticx.Lib

universe u v

/-- A state machine: `step s a` is `none` where the action `a` is not enabled in `s`. -/
structure Machine (σ : Type u) (α : Type v) where
  init : σ
  step : σ → α → Option σ

namespace Machine

variable {σ : Type u} {α : Type v} (M : Machine σ α)

/-! ## Runs -/

/-- Run a list of actions from a state. -/
def exec : σ → List α → Option σ
  | s, [] => some s
  | s, a :: as => (M.step s a).bind fun t => exec t as

@[simp] theorem exec_nil (s : σ) : M.exec s [] = some s := rfl

theorem exec_cons (s : σ) (a : α) (as : List α) :
    M.exec s (a :: as) = (M.step s a).bind fun t => M.exec t as := rfl

theorem exec_cons_eq_some {s t : σ} {a : α} {as : List α} :
    M.exec s (a :: as) = some t ↔ ∃ m, M.step s a = some m ∧ M.exec m as = some t := by
  rw [exec_cons, Option.bind_eq_some_iff]

theorem exec_append (s : σ) (as bs : List α) :
    M.exec s (as ++ bs) = (M.exec s as).bind fun t => M.exec t bs := by
  induction as generalizing s with
  | nil => rfl
  | cons a as ih =>
    rw [List.cons_append, exec_cons, exec_cons]
    cases h : M.step s a with
    | none => rfl
    | some m => exact ih m

/-- Split a run after its first part. -/
theorem exec_trans {s t u : σ} {as bs : List α} (h₁ : M.exec s as = some t)
    (h₂ : M.exec t bs = some u) : M.exec s (as ++ bs) = some u := by
  rw [exec_append, h₁]
  exact h₂

/-! ## Reachable states -/

/-- A state that some run from the initial state ends in. -/
inductive Reachable : σ → Prop where
  | init : Reachable M.init
  | step {s t : σ} {a : α} : Reachable s → M.step s a = some t → Reachable t

variable {M}

theorem Reachable.exec {s t : σ} {as : List α} (hs : M.Reachable s)
    (h : M.exec s as = some t) : M.Reachable t := by
  induction as generalizing s with
  | nil => cases h; exact hs
  | cons a as ih =>
    obtain ⟨m, hm, ht⟩ := M.exec_cons_eq_some.mp h
    exact ih (hs.step hm) ht

theorem reachable_iff_exec {s : σ} : M.Reachable s ↔ ∃ as, M.exec M.init as = some s := by
  constructor
  · intro h
    induction h with
    | init => exact ⟨[], rfl⟩
    | @step s t a _ hst ih =>
      obtain ⟨as, has⟩ := ih
      refine ⟨as ++ [a], M.exec_trans has ?_⟩
      rw [exec_cons, hst]
      rfl
  · rintro ⟨as, h⟩
    exact Reachable.init.exec h

/-- **The invariant rule.** What holds initially and is kept by every step from a reachable
state holds in every reachable state. -/
theorem Reachable.invariant {P : σ → Prop} (hinit : P M.init)
    (hstep : ∀ s a t, M.Reachable s → P s → M.step s a = some t → P t) {s : σ}
    (h : M.Reachable s) : P s := by
  induction h with
  | init => exact hinit
  | step hs hst ih => exact hstep _ _ _ hs ih hst

/-- **The invariant rule of runs.** What every step keeps is kept by a run from any state. -/
theorem exec_invariant {P : σ → Prop} (hstep : ∀ s a t, P s → M.step s a = some t → P t)
    {s t : σ} {as : List α} (hs : P s) (h : M.exec s as = some t) : P t := by
  induction as generalizing s with
  | nil => cases h; exact hs
  | cons a as ih =>
    obtain ⟨m, hm, ht⟩ := M.exec_cons_eq_some.mp h
    exact ih (hstep s a m hs hm) ht

/-! ## Progress -/

section Progress

variable {P Q : σ → Prop} {A : α → Prop} {μ : σ → Nat}

/-- **A measure bounds the runs that decrease it.** -/
theorem exec_length_le
    (hstep : ∀ s a t, P s → A a → M.step s a = some t → P t ∧ μ t < μ s) {s t : σ} {as : List α}
    (hs : P s) (hA : ∀ a ∈ as, A a) (h : M.exec s as = some t) : P t ∧ as.length + μ t ≤ μ s := by
  induction as generalizing s with
  | nil =>
    cases h
    exact ⟨hs, by simp⟩
  | cons a as ih =>
    obtain ⟨m, hm, ht⟩ := M.exec_cons_eq_some.mp h
    obtain ⟨hPm, hlt⟩ := hstep s a m hs (hA a List.mem_cons_self) hm
    obtain ⟨hPt, hle⟩ := ih hPm (fun b hb => hA b (List.mem_cons_of_mem a hb)) ht
    refine ⟨hPt, ?_⟩
    rw [List.length_cons]
    omega

/-- **What can go on until `Q` gets there.** -/
theorem exists_exec
    (hstep : ∀ s a t, P s → A a → M.step s a = some t → P t ∧ μ t < μ s)
    (hprogress : ∀ s, P s → Q s ∨ ∃ a t, A a ∧ M.step s a = some t) {s : σ} (hs : P s) :
    ∃ as t, (∀ a ∈ as, A a) ∧ M.exec s as = some t ∧ Q t := by
  induction hμ : μ s using Nat.strongRecOn generalizing s with
  | ind n ih =>
    rcases hprogress s hs with hQ | ⟨a, t, ha, ht⟩
    · exact ⟨[], s, by simp, rfl, hQ⟩
    · obtain ⟨hPt, hlt⟩ := hstep s a t hs ha ht
      obtain ⟨as, u, hA, hu, hQ⟩ := ih (μ t) (hμ ▸ hlt) hPt rfl
      refine ⟨a :: as, u, ?_, M.exec_cons_eq_some.mpr ⟨t, ht, hu⟩, hQ⟩
      exact List.forall_mem_cons.mpr ⟨ha, hA⟩

end Progress

/-! ## Simulation -/

section Simulation

universe u' v'

variable {τ : Type u'} {β : Type v'}

/-- Whatever `M` does is invisible in `N`, or one step of it; `R` says which states belong together. -/
structure Simulates (M : Machine σ α) (N : Machine τ β) (R : σ → τ → Prop) : Prop where
  init : R M.init N.init
  step : ∀ s a t c, N.Reachable c → R s c → M.step s a = some t →
    R t c ∨ ∃ b d, N.step c b = some d ∧ R t d

variable {N : Machine τ β} {R : σ → τ → Prop}

/-- **A run is one of the coarser machine**, with at most as many steps. -/
theorem Simulates.exec (h : Simulates M N R) {s t : σ} {c : τ} {as : List α} (hc : N.Reachable c)
    (hR : R s c) (hexec : M.exec s as = some t) :
    ∃ bs d, bs.length ≤ as.length ∧ N.exec c bs = some d ∧ R t d := by
  induction as generalizing s c with
  | nil =>
    cases hexec
    exact ⟨[], c, Nat.le_refl _, rfl, hR⟩
  | cons a as ih =>
    obtain ⟨m, hm, ht⟩ := M.exec_cons_eq_some.mp hexec
    rcases h.step s a m c hc hR hm with hR' | ⟨b, d, hd, hR'⟩
    · obtain ⟨bs, e, hle, hbs, hRt⟩ := ih hc hR' ht
      exact ⟨bs, e, Nat.le_succ_of_le hle, hbs, hRt⟩
    · obtain ⟨bs, e, hle, hbs, hRt⟩ := ih (hc.step hd) hR' ht
      exact ⟨b :: bs, e, Nat.succ_le_succ hle, N.exec_cons_eq_some.mpr ⟨d, hd, hbs⟩, hRt⟩

/-- **The simulation rule.** Every reachable state belongs to a reachable one. -/
theorem Simulates.reachable (h : Simulates M N R) {s : σ} (hs : M.Reachable s) :
    ∃ c, N.Reachable c ∧ R s c := by
  obtain ⟨as, has⟩ := reachable_iff_exec.mp hs
  obtain ⟨bs, c, -, hbs, hR⟩ := h.exec .init h.init has
  exact ⟨c, reachable_iff_exec.mpr ⟨bs, hbs⟩, hR⟩

end Simulation

/-! ## Runs under a condition -/

variable (M)

/-- Every step of the run `as` from `s` is taken where `C` holds. -/
def Along (C : σ → α → Prop) : σ → List α → Prop
  | _, [] => True
  | s, a :: as => C s a ∧ ∀ t, M.step s a = some t → Along C t as

instance decidableAlong (C : σ → α → Prop) [∀ s a, Decidable (C s a)] :
    ∀ s as, Decidable (M.Along C s as)
  | _, [] => isTrue trivial
  | s, a :: as =>
    match h : M.step s a with
    | none => decidable_of_iff (C s a) (by simp [Along, h])
    | some t =>
      have := decidableAlong C t as
      decidable_of_iff (C s a ∧ M.Along C t as) (by simp [Along, h])

theorem along_append {C : σ → α → Prop} {s t : σ} {as bs : List α}
    (h : M.exec s as = some t) :
    M.Along C s (as ++ bs) ↔ M.Along C s as ∧ M.Along C t bs := by
  induction as generalizing s with
  | nil => cases h; simp [Along]
  | cons a as ih =>
    obtain ⟨m, hm, ht⟩ := M.exec_cons_eq_some.mp h
    simp only [List.cons_append, Along, hm, Option.some.injEq, forall_eq', ih ht, and_assoc]

variable {M}

/-- **The invariant rule of runs under a condition.** -/
theorem Along.invariant {C : σ → α → Prop} {P : σ → Prop}
    (hstep : ∀ s a t, P s → C s a → M.step s a = some t → P t) {s t : σ} {as : List α} (hs : P s)
    (hC : M.Along C s as) (h : M.exec s as = some t) : P t := by
  induction as generalizing s with
  | nil => cases h; exact hs
  | cons a as ih =>
    obtain ⟨m, hm, ht⟩ := M.exec_cons_eq_some.mp h
    exact ih (hstep s a m hs hC.1 hm) (hC.2 m hm) ht

/-- A condition that an invariant implies holds along every run. -/
theorem Along.of_invariant {C D : σ → α → Prop} {P : σ → Prop}
    (hstep : ∀ s a t, P s → C s a → M.step s a = some t → P t) (hD : ∀ s a, P s → C s a → D s a)
    {s : σ} {as : List α} (hs : P s) (hC : M.Along C s as) : M.Along D s as := by
  induction as generalizing s with
  | nil => trivial
  | cons a as ih => exact ⟨hD s a hs hC.1, fun t ht => ih (hstep s a t hs hC.1 ht) (hC.2 t ht)⟩

/-- Conditions that agree in every reachable state agree along every run. -/
theorem along_congr {C D : σ → α → Prop} (hCD : ∀ s a, M.Reachable s → (C s a ↔ D s a)) {s : σ}
    (hs : M.Reachable s) (as : List α) : M.Along C s as ↔ M.Along D s as := by
  induction as generalizing s with
  | nil => exact Iff.rfl
  | cons a as ih =>
    have htail : ∀ t, M.step s a = some t → (M.Along C t as ↔ M.Along D t as) :=
      fun t ht => ih (hs.step ht)
    constructor
    · rintro ⟨hC, h⟩
      exact ⟨(hCD s a hs).mp hC, fun t ht => (htail t ht).mp (h t ht)⟩
    · rintro ⟨hD, h⟩
      exact ⟨(hCD s a hs).mpr hD, fun t ht => (htail t ht).mpr (h t ht)⟩

/-! ## History -/

variable (M) in
/-- The machine with a note that is updated after every step. -/
def withHistory {η : Type*} (note : η) (next : η → σ → σ → η) : Machine (σ × η) α where
  init := (M.init, note)
  step x a := (M.step x.1 a).map fun t => (t, next x.2 x.1 t)

variable (M) in
/-- The same with a note that also tells what was done. -/
def withEvents {η : Type*} (note : η) (next : η → σ → α → σ → η) : Machine (σ × η) α where
  init := (M.init, note)
  step x a := (M.step x.1 a).map fun t => (t, next x.2 x.1 a t)

section Events

variable {η : Type*} {note : η} {next : η → σ → α → σ → η}

theorem withEvents_step {x y : σ × η} {a : α} (h : (M.withEvents note next).step x a = some y) :
    M.step x.1 a = some y.1 ∧ y.2 = next x.2 x.1 a y.1 := by
  obtain ⟨t, ht, rfl⟩ := Option.map_eq_some_iff.mp h
  exact ⟨ht, rfl⟩

/-- The notes allow nothing new. -/
theorem Reachable.of_withEvents {x : σ × η} (h : (M.withEvents note next).Reachable x) :
    M.Reachable x.1 := by
  induction h with
  | init => exact Reachable.init
  | step _ hst ih => exact ih.step (withEvents_step hst).1

end Events

variable {η : Type*} {note : η} {next : η → σ → σ → η}

/-- A history is one of events that does not look at the action. -/
theorem withHistory_eq_withEvents :
    M.withHistory note next = M.withEvents note fun n s _ t => next n s t := rfl

theorem withHistory_step {x y : σ × η} {a : α} (h : (M.withHistory note next).step x a = some y) :
    M.step x.1 a = some y.1 ∧ y.2 = next x.2 x.1 y.1 :=
  withEvents_step (withHistory_eq_withEvents ▸ h)

theorem Reachable.of_withHistory {x : σ × η} (h : (M.withHistory note next).Reachable x) :
    M.Reachable x.1 :=
  Reachable.of_withEvents (withHistory_eq_withEvents ▸ h)

end Machine

end Rticx.Lib
