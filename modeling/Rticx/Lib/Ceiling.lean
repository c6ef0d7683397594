import Mathlib.Data.List.Dedup
import Mathlib.Data.List.Perm.Subperm
import Mathlib.Order.Basic

/-!
# Stacks of activities under resource ceilings

Activities that share one stack: an activity starts on top of the others and ends before they go
on. Each has a level, and each resource a ceiling. The stack is admissible when

1. an activity holds only resources whose ceiling its level does not exceed, and
2. its level exceeds the ceiling of every resource that was held when it started.

No resource is then held by two activities. Nothing is said about how an implementation keeps an
activity from starting; the rule `Admissible.start` is what it has to show.
-/

namespace Rticx.Lib.Ceiling

universe u v

/-- An activity on the stack. -/
structure Activity (ρ : Type u) (π : Type v) where
  level : π
  held : List ρ

variable {ρ : Type u} {π : Type v} [Preorder π]

/-- The latest activity comes first. -/
def Admissible (ceil : ρ → π) : List (Activity ρ π) → Prop
  | [] => True
  | a :: below =>
    (∀ r ∈ a.held, a.level ≤ ceil r) ∧ (∀ b ∈ below, ∀ r ∈ b.held, ceil r < a.level) ∧
      Admissible ceil below

variable {ceil : ρ → π} {a : Activity ρ π} {below : List (Activity ρ π)}

/-! ## Rules -/

theorem Admissible.start {level : π} (h : Admissible ceil below)
    (hlevel : ∀ b ∈ below, ∀ r ∈ b.held, ceil r < level) :
    Admissible ceil (⟨level, []⟩ :: below) := by
  refine ⟨?_, hlevel, h⟩
  intro r hr
  cases hr

theorem Admissible.finish (h : Admissible ceil (a :: below)) : Admissible ceil below := h.2.2

theorem Admissible.acquire {r : ρ} (h : Admissible ceil (a :: below)) (hr : a.level ≤ ceil r) :
    Admissible ceil (⟨a.level, r :: a.held⟩ :: below) := by
  refine ⟨?_, h.2⟩
  intro q hq
  rcases List.mem_cons.mp hq with rfl | hq
  · exact hr
  · exact h.1 q hq

theorem Admissible.release {r : ρ} {held : List ρ} {level : π}
    (h : Admissible ceil (⟨level, r :: held⟩ :: below)) :
    Admissible ceil (⟨level, held⟩ :: below) :=
  ⟨fun q hq => h.1 q (List.mem_cons_of_mem r hq), h.2⟩

/-- **No resource is held twice.** -/
theorem Admissible.exclusive {stack : List (Activity ρ π)} (h : Admissible ceil stack) :
    stack.Pairwise fun a b => ∀ r ∈ a.held, r ∉ b.held := by
  induction stack with
  | nil => exact List.Pairwise.nil
  | cons a below ih =>
    obtain ⟨hown, habove, hbelow⟩ := h
    refine List.Pairwise.cons ?_ (ih hbelow)
    -- the ceiling would be below the level of the upper activity, and not below it
    intro b hb r hr hr'
    exact lt_irrefl _ ((habove b hb r hr').trans_le (hown r hr))

/-! ## What keeps an activity from starting -/

/-- The levels go up towards the top. -/
def Ordered (stack : List (Activity ρ π)) : Prop := stack.Pairwise fun a b => b.level < a.level

/-- **Only the activity on top blocks** a level above its own: what the others hold has a ceiling
that is lower. -/
theorem Admissible.below_lt {level : π} (h : Admissible ceil (a :: below))
    (hlevel : a.level < level) :
    ∀ b ∈ below, ∀ r ∈ b.held, ceil r < level :=
  fun b hb r hr => (h.2.1 b hb r hr).trans hlevel

/-- There is one activity for each level. -/
theorem Ordered.length_le [DecidableEq π] {stack : List (Activity ρ π)} {levels : List π}
    (h : Ordered stack) (hmem : ∀ a ∈ stack, a.level ∈ levels) :
    stack.length ≤ levels.dedup.length := by
  have hnodup : (stack.map (·.level)).Nodup := by
    refine List.pairwise_map.mpr (h.imp ?_)
    intro a b hlt
    exact ne_of_gt hlt
  have hsubset : stack.map (·.level) ⊆ levels.dedup := by
    intro level hlevel
    obtain ⟨a, ha, rfl⟩ := List.mem_map.mp hlevel
    exact List.mem_dedup.mpr (hmem a ha)
  simpa using (List.subperm_of_subset hnodup hsubset).length_le

end Rticx.Lib.Ceiling
