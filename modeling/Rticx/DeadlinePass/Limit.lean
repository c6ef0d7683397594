import Rticx.DeadlinePass.Ranking

/-!
# The limit on the priorities

`analyze` rejects an app that needs more priorities than the platform has. What it compares with the
limit is the length of the sorted list as a `u16`, and the list has an entry for the tasks without a
deadline.
-/

namespace Rticx.DeadlinePass

open Rticx.Core Rticx.Core.Source Rticx.Lib Rticx.Lib.Except

/-- What the sorted list has in it. -/
def counted (tasks : List RticTask) : Finset Nat :=
  declared tasks ∪ if ∃ t ∈ tasks, t.deadline = none then {2 ^ 32 - 1} else ∅

/-- The limit is on the number of the deadlines. -/
structure LimitExact (maxPriority : Nat) (tasks : List RticTask) : Prop where
  rejects : (∃ e, analyze maxPriority tasks = .error e) ↔ maxPriority < (declared tasks).card
  values : ∀ tasks', analyze maxPriority tasks = .ok tasks' →
    ∀ value ∈ declared tasks', value ∈ Finset.Icc 1 maxPriority

/-- When the number that is compared tells about the number of the deadlines. At the limit there is
no room for the entry that stands for no deadline, unless the count wraps; above the limit the
count must not wrap below it. When every `u32` is a deadline, the last rank overflows. -/
structure CountFits (maxPriority : Nat) (tasks : List RticTask) : Prop where
  below : (declared tasks).card ≤ maxPriority →
    (counted tasks).card ≤ maxPriority ∨ maxPriority = 2 ^ 16 - 1
  above : maxPriority < (declared tasks).card →
    maxPriority < (counted tasks).card % 2 ^ 16 ∨ (declared tasks).card = 2 ^ 32

variable {maxPriority deadline : Nat} {tasks tasks' : List RticTask}

theorem mem_counted : deadline ∈ counted tasks ↔ deadline ∈ sortedDeadlines tasks := by
  rw [counted, mem_sortedDeadlines_iff, Finset.mem_union]
  split <;> simp [*]

theorem length_sortedDeadlines : (sortedDeadlines tasks).length = (counted tasks).card := by
  have hnodup : (sortedDeadlines tasks).Nodup := (sortedDeadlines_pairwise tasks).imp Nat.ne_of_lt
  rw [← List.toFinset_card_of_nodup hnodup]
  refine congrArg Finset.card (Finset.ext fun d => ?_)
  rw [List.mem_toFinset, mem_counted]

/-- The entry for no deadline is one entry at most. -/
theorem card_counted : (declared tasks).card ≤ (counted tasks).card ∧
    (counted tasks).card ≤ (declared tasks).card + 1 := by
  refine ⟨Finset.card_le_card Finset.subset_union_left, ?_⟩
  refine (Finset.card_union_le _ _).trans (Nat.add_le_add_left ?_ _)
  split <;> simp

theorem card_declared_le (hfit : DeadlinesFit tasks) : (declared tasks).card ≤ 2 ^ 32 := by
  rw [← Finset.card_range (2 ^ 32)]
  refine Finset.card_le_card fun d hd => ?_
  obtain ⟨t, ht, hd⟩ := mem_declared.mp hd
  exact Finset.mem_range.mpr (hfit t ht d hd)

/-- Every rank is a `u32`, unless all numbers are deadlines. -/
theorem analyze_task_isOk (hfit : DeadlinesFit tasks) :
    (∀ t ∈ tasks, ∃ t', t.analyze (sortedDeadlines tasks) = .ok t') ↔
      (declared tasks).card < 2 ^ 32 := by
  have hle := card_declared_le hfit
  have hround : ∀ t ∈ tasks, (∃ t', t.analyze (sortedDeadlines tasks) = .ok t') ↔
      ∀ d, t.deadline = some d → Rank.rankIn (declared tasks) d < 2 ^ 32 := by
    intro t ht
    unfold RticTask.analyze
    cases hd : t.deadline with
    | none => simp
    | some d =>
      have hmem := mem_declared.mpr ⟨t, ht, hd⟩
      have hrank := Rank.rankIn_le_card hmem
      have hidx := idxOf_sortedDeadlines hmem (hfit t ht d hd)
      simp only [rank_of_mem (mem_sortedDeadlines ht hd), Option.some_inj, forall_eq']
      rw [Nat.mod_eq_of_lt (by omega), hidx]
      split
      · rename_i hlt
        exact ⟨fun _ => hlt, fun _ => ⟨_, rfl⟩⟩
      · rename_i hge
        refine ⟨?_, fun hlt => absurd hlt hge⟩
        rintro ⟨_, h⟩
        cases h
  rw [forall₂_congr hround]
  constructor
  · intro h
    by_contra hcard
    have hlast : (declared tasks).card ∈ (declared tasks).image (Rank.rankIn (declared tasks)) := by
      rw [Rank.image_rankIn, Finset.mem_Icc]
      omega
    obtain ⟨d, hd, heq⟩ := Finset.mem_image.mp hlast
    obtain ⟨t, ht, hd⟩ := mem_declared.mp hd
    have := h t ht d hd
    omega
  · intro h t ht d hd
    exact Nat.lt_of_le_of_lt (Rank.rankIn_le_card (mem_declared.mpr ⟨t, ht, hd⟩)) h

/-- **When `analyze` rejects an app.** -/
theorem analyze_error_iff (hfit : DeadlinesFit tasks) :
    (∃ e, analyze maxPriority tasks = .error e) ↔
      maxPriority < (counted tasks).card % 2 ^ 16 ∨ (declared tasks).card = 2 ^ 32 := by
  have hle := card_declared_le hfit
  have hok : (∃ tasks', analyze maxPriority tasks = .ok tasks') ↔
      (counted tasks).card % 2 ^ 16 ≤ maxPriority ∧ (declared tasks).card < 2 ^ 32 := by
    simp only [analyze_eq_ok_iff, exists_and_left]
    rw [mapM_ok_iff, analyze_task_isOk hfit, length_sortedDeadlines]
  rw [error_iff, hok]
  omega

/-- **The limit is exact exactly when the number that is compared fits.** -/
theorem limitExact_iff (hmax : maxPriority < 2 ^ 16) (hfit : DeadlinesFit tasks) :
    LimitExact maxPriority tasks ↔ CountFits maxPriority tasks := by
  have hcounted : (declared tasks).card ≤ (counted tasks).card ∧
      (counted tasks).card ≤ (declared tasks).card + 1 := card_counted
  constructor
  · rintro ⟨hrejects, -⟩
    rw [analyze_error_iff hfit] at hrejects
    constructor <;> omega
  · rintro ⟨hbelow, habove⟩
    have hrejects : (∃ e, analyze maxPriority tasks = .error e) ↔
        maxPriority < (declared tasks).card := by
      rw [analyze_error_iff hfit]
      omega
    refine ⟨hrejects, fun tasks' h value hvalue => ?_⟩
    -- what is not rejected has its ranks below the number of the deadlines
    have hle : (declared tasks).card ≤ maxPriority := by
      by_contra hlt
      obtain ⟨e, he⟩ := hrejects.mpr (Nat.lt_of_not_le hlt)
      rw [h] at he
      cases he
    rw [(analyze_ranked hfit h).contiguous] at hvalue
    exact Finset.Icc_subset_Icc_right hle hvalue

/-- The only task with a deadline. -/
def fastTask : RticTask := readTask "Fast" "EXTI0" (some 10)

/-- A task without a deadline. -/
def idleTask : RticTask where
  params := RticAttr.parseFromTokens [] "task"
  taskStruct := ⟨"Slow", [], [], ";"⟩
  deadline := none

/-- One deadline is too many for one priority, with a task that has none. -/
theorem limit_below_maximum : ¬ LimitExact 1 [fastTask, idleTask] := by
  intro h
  have : ¬ 1 < (declared [fastTask, idleTask]).card := by decide +kernel
  exact this (h.rejects.mp ⟨_, rfl⟩)

theorem limitExact_iff_two : LimitExact 2 [fastTask, idleTask] ↔
    CountFits 2 [fastTask, idleTask] := by
  refine limitExact_iff (by decide) ?_
  intro task htask deadline hdeadline
  rcases List.mem_pair.mp htask with rfl | rfl
  · cases hdeadline
    decide
  · cases hdeadline

end Rticx.DeadlinePass
