import Mathlib.Data.List.Nodup
import Mathlib.Data.List.Perm.Subperm
import Mathlib.Tactic.Common

/-!
# Items in places

A finite supply of items wanders between places, one item at a time. `Exclusive items` says that
no item is in two places or in one place twice; it is kept by every move.
-/

namespace Rticx.Lib.Places

variable {ι κ : Type*}

/-- No item is in two places, or twice in one. -/
structure Exclusive (items : ι → List κ) : Prop where
  nodup : ∀ P, (items P).Nodup
  unique : ∀ P Q i, i ∈ items P → i ∈ items Q → P = Q

/-- The item `i` goes from `A` to `B`, and everything else stays. -/
structure Move (items items' : ι → List κ) (A B : ι) (i : κ) : Prop where
  ne : A ≠ B
  out : (items A).Perm (i :: items' A)
  into : (items' B).Perm (i :: items B)
  other : ∀ P, P ≠ A → P ≠ B → items' P = items P

variable {items items' : ι → List κ} {A B : ι} {i : κ}

theorem Move.mem_out (h : Move items items' A B i) : i ∈ items A :=
  h.out.mem_iff.mpr List.mem_cons_self

/-- Where an item is after a move. -/
theorem Move.mem_iff (h : Move items items' A B i) (he : Exclusive items) (P : ι) (j : κ) :
    j ∈ items' P ↔ (j = i ∧ P = B) ∨ (j ≠ i ∧ j ∈ items P) := by
  have hiA := h.mem_out
  by_cases hPB : P = B
  · subst hPB
    have hiP : i ∉ items P := fun hi => h.ne (he.unique A P i hiA hi)
    rw [h.into.mem_iff, List.mem_cons]
    constructor
    · rintro (rfl | hj)
      · exact Or.inl ⟨rfl, rfl⟩
      · exact Or.inr ⟨fun hji => hiP (hji ▸ hj), hj⟩
    · rintro (⟨rfl, -⟩ | ⟨-, hj⟩)
      · exact Or.inl rfl
      · exact Or.inr hj
  · simp only [hPB, and_false, false_or]
    by_cases hPA : P = A
    · subst hPA
      have hnd := h.out.nodup_iff.mp (he.nodup P)
      rw [h.out.mem_iff, List.mem_cons]
      constructor
      · intro hj
        exact ⟨fun hji => (List.nodup_cons.mp hnd).1 (hji ▸ hj), Or.inr hj⟩
      · rintro ⟨hne, rfl | hj⟩
        · exact absurd rfl hne
        · exact hj
    · rw [h.other P hPA hPB]
      constructor
      · intro hj
        exact ⟨fun hji => hPA (he.unique P A i (hji ▸ hj) hiA), hj⟩
      · exact And.right

/-- **A move keeps the items apart.** -/
theorem Exclusive.move (he : Exclusive items) (h : Move items items' A B i) :
    Exclusive items' where
  nodup P := by
    by_cases hPB : P = B
    · subst hPB
      refine h.into.nodup_iff.mpr (List.nodup_cons.mpr ⟨fun hi => ?_, he.nodup P⟩)
      exact h.ne (he.unique A P i h.mem_out hi)
    · by_cases hPA : P = A
      · subst hPA
        exact (List.nodup_cons.mp (h.out.nodup_iff.mp (he.nodup P))).2
      · rw [h.other P hPA hPB]
        exact he.nodup P
  unique P Q j hP hQ := by
    rcases (h.mem_iff he P j).mp hP with ⟨rfl, rfl⟩ | ⟨hj, hP⟩
    · rcases (h.mem_iff he Q j).mp hQ with ⟨-, rfl⟩ | ⟨hne, -⟩
      · rfl
      · exact absurd rfl hne
    · rcases (h.mem_iff he Q j).mp hQ with ⟨rfl, -⟩ | ⟨-, hQ⟩
      · exact absurd rfl hj
      · exact he.unique P Q j hP hQ

/-- Taking items away keeps the rest apart. -/
theorem Exclusive.sublist (he : Exclusive items) (h : ∀ P, (items' P).Sublist (items P)) :
    Exclusive items' where
  nodup P := (he.nodup P).sublist (h P)
  unique P Q j hP hQ := he.unique P Q j ((h P).subset hP) ((h Q).subset hQ)

/-- Numbers below `n` without repetition that leave one out are fewer than `n`. -/
theorem length_lt {l : List Nat} {n i : Nat} (hnd : l.Nodup) (hlt : ∀ j ∈ l, j < n) (hi : i < n)
    (hnot : i ∉ l) : l.length < n := by
  have hsub : (i :: l).length ≤ (List.range n).length := by
    refine (List.subperm_of_subset (List.nodup_cons.mpr ⟨hnot, hnd⟩) fun j hj => ?_).length_le
    rcases List.mem_cons.mp hj with rfl | hj
    · exact List.mem_range.mpr hi
    · exact List.mem_range.mpr (hlt j hj)
  exact Nat.lt_of_succ_le (by simpa using hsub)

end Rticx.Lib.Places
