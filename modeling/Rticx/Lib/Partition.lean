import Mathlib.Data.List.Perm.Basic
import Mathlib.Data.List.Nodup
import Mathlib.Data.List.Range
import Mathlib.Tactic.Common

/-!
# Partitions

A list whose elements have a number as their key, taken apart by the key and put together again.
-/

namespace Rticx.Lib.Partition

universe u v

variable {α : Type u} {β : Type v} {l : List α}

/-- Where no two elements have one key, the first element of a key is the only one. -/
theorem toList_find? {key : α → Nat} (hl : (l.map key).Nodup) (k : Nat) :
    (l.find? (key · = k)).toList = l.filter (key · = k) := by
  induction l with
  | nil => rfl
  | cons a l ih =>
    obtain ⟨ha, hl⟩ := List.nodup_cons.mp hl
    by_cases hk : key a = k
    · have hrest : l.filter (key · = k) = [] := by
        rw [List.filter_eq_nil_iff]
        intro b hb
        have hne : key b ≠ k := fun h => ha (List.mem_map.mpr ⟨b, hb, h.trans hk.symm⟩)
        simpa using hne
      rw [List.find?_cons_of_pos (by simpa using hk), List.filter_cons_of_pos (by simpa using hk),
        hrest]
      rfl
    · rw [List.find?_cons_of_neg (by simpa using hk), List.filter_cons_of_neg (by simpa using hk)]
      exact ih hl

/-- **The parts below a bound put together are the elements below it.** -/
theorem flatMap_range_filter (key : α → Nat) (n : Nat) (f : α → List β) :
    ((List.range n).flatMap fun k => (l.filter (key · = k)).flatMap f).Perm
      ((l.filter (key · < n)).flatMap f) := by
  induction n with
  | zero => simp
  | succ n ih =>
    rw [List.range_succ, List.flatMap_append, List.flatMap_singleton]
    refine (ih.append_right _).trans ?_
    rw [← List.flatMap_append]
    refine List.Perm.flatMap_right f ?_
    -- below `n + 1` is below `n` or `n` itself
    have hlt : (l.filter (key · < n)).Perm ((l.filter (key · < n + 1)).filter (key · < n)) := by
      rw [List.filter_filter]
      refine List.Perm.of_eq (List.filter_congr fun a _ => ?_)
      rw [Bool.eq_iff_iff]
      simp only [Bool.and_eq_true, decide_eq_true_eq]
      omega
    have heq : (l.filter (key · = n)).Perm ((l.filter (key · < n + 1)).filter (!key · < n)) := by
      rw [List.filter_filter]
      refine List.Perm.of_eq (List.filter_congr fun a _ => ?_)
      rw [Bool.eq_iff_iff]
      simp only [Bool.and_eq_true, Bool.not_eq_true', decide_eq_true_eq, decide_eq_false_iff_not]
      omega
    exact (hlt.append heq).trans (List.filter_append_perm _ _)

/-- Two kinds of elements are rearranged each for itself. -/
theorem perm_append_iff {p : α → Bool} {l₁ l₂ m₁ m₂ : List α} (hl₁ : ∀ a ∈ l₁, p a)
    (hl₂ : ∀ a ∈ l₂, p a) (hm₁ : ∀ a ∈ m₁, ¬ p a) (hm₂ : ∀ a ∈ m₂, ¬ p a) :
    (l₁ ++ m₁).Perm (l₂ ++ m₂) ↔ l₁.Perm l₂ ∧ m₁.Perm m₂ := by
  constructor
  · intro h
    have hnl₁ : l₁.filter (!p ·) = [] := List.filter_eq_nil_iff.mpr (by simpa using hl₁)
    have hnl₂ : l₂.filter (!p ·) = [] := List.filter_eq_nil_iff.mpr (by simpa using hl₂)
    have hnm₁ : m₁.filter (!p ·) = m₁ := List.filter_eq_self.mpr (by simpa using hm₁)
    have hnm₂ : m₂.filter (!p ·) = m₂ := List.filter_eq_self.mpr (by simpa using hm₂)
    have hp := h.filter p
    have hnp := h.filter (!p ·)
    rw [List.filter_append, List.filter_append, List.filter_eq_self.mpr hl₁,
      List.filter_eq_self.mpr hl₂, List.filter_eq_nil_iff.mpr hm₁,
      List.filter_eq_nil_iff.mpr hm₂, List.append_nil, List.append_nil] at hp
    rw [List.filter_append, List.filter_append, hnl₁, hnl₂, hnm₁, hnm₂] at hnp
    exact ⟨hp, hnp⟩
  · rintro ⟨hl, hm⟩
    exact hl.append hm

/-- A list is a rearrangement of a list without repetitions exactly when it has each of its
elements once, where it has no other elements. -/
theorem perm_iff_count_eq_one [DecidableEq α] {l m : List α} (hm : m.Nodup)
    (hsub : ∀ a ∈ l, a ∈ m) : l.Perm m ↔ ∀ a ∈ m, l.count a = 1 := by
  rw [List.perm_iff_count]
  constructor
  · intro h a ha
    rw [h a, List.count_eq_one_of_mem hm ha]
  · intro h a
    by_cases ha : a ∈ m
    · rw [h a ha, List.count_eq_one_of_mem hm ha]
    · rw [List.count_eq_zero_of_not_mem ha, List.count_eq_zero_of_not_mem (fun hl => ha (hsub a hl))]

end Rticx.Lib.Partition
