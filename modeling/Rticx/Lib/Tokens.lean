import Mathlib.Algebra.BigOperators.Group.Finset.Basic
import Mathlib.Algebra.Order.BigOperators.Group.Finset
import Mathlib.Data.Fintype.Basic
import Mathlib.Data.Fintype.BigOperators

/-!
# Counting tokens

A token names what is stored elsewhere. When no name occurs more often than its own store has
room, the tokens together fit into a queue of the summed capacity.
-/

namespace Rticx.Lib.Tokens

variable {ι : Type*} [Fintype ι] [DecidableEq ι]

theorem sum_count (l : List ι) : ∑ i, l.count i = l.length := by
  have := Multiset.sum_count_eq_card (s := Finset.univ) (m := (l : Multiset ι)) (by simp)
  simpa using this

/-- **Tokens bounded by name are bounded in number.** -/
theorem length_le_sum {l : List ι} {capacity : ι → Nat} (h : ∀ i, l.count i ≤ capacity i) :
    l.length ≤ ∑ i, capacity i := by
  rw [← sum_count l]
  exact Finset.sum_le_sum fun i _ => h i

/-- One name strictly below its capacity leaves room for one more token. -/
theorem length_lt_sum {l : List ι} {capacity : ι → Nat} (h : ∀ i, l.count i ≤ capacity i) {i : ι}
    (hi : l.count i < capacity i) : l.length < ∑ i, capacity i := by
  rw [← sum_count l]
  exact Finset.sum_lt_sum (fun j _ => h j) ⟨i, Finset.mem_univ i, hi⟩

end Rticx.Lib.Tokens
