import Mathlib.Data.List.Sort
import Mathlib.Order.Interval.Finset.Nat
import Mathlib.Order.Nat

/-!
# Ranks

The position of an element in the sorted list of the different elements. It orders the elements as
they are ordered themselves, and it is the number of the elements below.
-/

namespace Rticx.Lib.Rank

universe u

variable {α : Type u} [LinearOrder α]

/-- Keep one element of each run of equal elements. -/
def dedup : List α → List α
  | [] => []
  | a :: l =>
    match dedup l with
    | [] => [a]
    | b :: l' => if a = b then b :: l' else a :: b :: l'

theorem mem_dedup {l : List α} {a : α} : a ∈ dedup l ↔ a ∈ l := by
  induction l with
  | nil => rfl
  | cons b l ih =>
    rw [List.mem_cons, ← ih, dedup]
    split
    · rename_i hnil
      rw [hnil]
      simp
    · rename_i c l' hcons
      rw [hcons]
      split
      · rename_i heq
        subst heq
        simp
      · exact List.mem_cons

/-- A sorted list becomes a strictly sorted one. -/
theorem dedup_pairwise {l : List α} (h : l.Pairwise (· ≤ ·)) : (dedup l).Pairwise (· < ·) := by
  induction l with
  | nil => exact List.Pairwise.nil
  | cons a l ih =>
    obtain ⟨ha, hl⟩ := List.pairwise_cons.mp h
    have ih := ih hl
    rw [dedup]
    split
    · exact List.pairwise_singleton _ _
    · rename_i b l' hcons
      rw [hcons] at ih
      split
      · exact ih
      · rename_i hne
        refine List.pairwise_cons.mpr ⟨?_, ih⟩
        have hab : a < b := by
          have hb : b ∈ l := mem_dedup.mp (hcons ▸ List.mem_cons_self)
          exact lt_of_le_of_ne (ha b hb) hne
        intro c hc
        rcases List.mem_cons.mp hc with rfl | hc
        · exact hab
        · exact lt_trans hab ((List.pairwise_cons.mp ih).1 c hc)

/-- **The position orders the elements.** -/
theorem idxOf_lt_idxOf {l : List α} (h : l.Pairwise (· < ·)) {a b : α} (ha : a ∈ l) (hb : b ∈ l)
    (hab : a < b) : l.idxOf a < l.idxOf b := by
  by_contra hle
  have hia := List.idxOf_lt_length_of_mem ha
  have hib := List.idxOf_lt_length_of_mem hb
  rcases Nat.eq_or_lt_of_le (Nat.le_of_not_lt hle) with heq | hlt
  · have : a = b := by
      rw [← List.getElem_idxOf hia, ← List.getElem_idxOf hib]
      simp only [heq]
    exact absurd hab (this ▸ lt_irrefl a)
  · have := List.pairwise_iff_getElem.mp h _ _ hib hia hlt
    rw [List.getElem_idxOf, List.getElem_idxOf] at this
    exact lt_asymm hab this

/-- A search for an element of the list finds its position. -/
theorem idxOf?_of_mem {l : List α} {a : α} (ha : a ∈ l) : l.idxOf? a = some (l.idxOf a) := by
  obtain ⟨i, hi⟩ := Option.isSome_iff_exists.mp (List.isSome_idxOf?.mpr ha)
  rw [hi, List.idxOf_eq_getD_idxOf?, hi, Option.getD_some]

/-- A number stands at a position that is not above it. -/
theorem idxOf_le {l : List Nat} (h : l.Pairwise (· < ·)) {n : Nat} (hn : n ∈ l) :
    l.idxOf n ≤ n := by
  have hall : ∀ i (hi : i < l.length), i ≤ l[i] := by
    intro i
    induction i with
    | zero => exact fun _ => Nat.zero_le _
    | succ i ih =>
      intro hi
      have hlt := List.pairwise_iff_getElem.mp h i (i + 1) (by omega) hi (by omega)
      have := ih (by omega)
      omega
  have hi := List.idxOf_lt_length_of_mem hn
  have := hall _ hi
  rwa [List.getElem_idxOf] at this

/-! ## Ranks in a set -/

/-- One more than the number of the elements below. -/
def rankIn (s : Finset α) (a : α) : Nat := (s.filter (· < a)).card + 1

theorem rankIn_lt_rankIn {s : Finset α} {a b : α} (ha : a ∈ s) (hab : a < b) :
    rankIn s a < rankIn s b := by
  refine Nat.add_lt_add_right (Finset.card_lt_card ?_) 1
  rw [Finset.ssubset_iff_of_subset]
  · exact ⟨a, Finset.mem_filter.mpr ⟨ha, hab⟩, by simp⟩
  · intro c hc
    obtain ⟨hc, hca⟩ := Finset.mem_filter.mp hc
    exact Finset.mem_filter.mpr ⟨hc, lt_trans hca hab⟩

theorem rankIn_inj {s : Finset α} {a b : α} (ha : a ∈ s) (hb : b ∈ s) :
    rankIn s a = rankIn s b ↔ a = b := by
  constructor
  · intro h
    rcases lt_trichotomy a b with hlt | heq | hgt
    · exact absurd h (rankIn_lt_rankIn ha hlt).ne
    · exact heq
    · exact absurd h (rankIn_lt_rankIn hb hgt).ne'
  · rintro rfl
    rfl

theorem rankIn_le_card {s : Finset α} {a : α} (ha : a ∈ s) : rankIn s a ≤ s.card := by
  refine Finset.card_lt_card (Finset.filter_ssubset.mpr ⟨a, ha, ?_⟩)
  exact lt_irrefl a

/-- **The ranks of a set are contiguous.** -/
theorem image_rankIn (s : Finset α) : s.image (rankIn s) = Finset.Icc 1 s.card := by
  refine Finset.eq_of_subset_of_card_le ?_ ?_
  · intro n hn
    obtain ⟨a, ha, rfl⟩ := Finset.mem_image.mp hn
    exact Finset.mem_Icc.mpr ⟨Nat.le_add_left _ _, rankIn_le_card ha⟩
  · rw [Nat.card_Icc, Finset.card_image_of_injOn fun a ha b hb => (rankIn_inj ha hb).mp]
    omega

/-- The rank of an element is one more than its position. -/
theorem idxOf_eq_card {l : List α} (h : l.Pairwise (· < ·)) {a : α} (ha : a ∈ l) :
    l.idxOf a = (l.toFinset.filter (· < a)).card := by
  induction l with
  | nil => exact absurd ha List.not_mem_nil
  | cons b l ih =>
    obtain ⟨hb, hl⟩ := List.pairwise_cons.mp h
    rw [List.toFinset_cons, Finset.filter_insert]
    rcases List.mem_cons.mp ha with rfl | ha
    · rw [List.idxOf_cons_self, if_neg (lt_irrefl a), eq_comm, Finset.card_eq_zero,
        Finset.filter_eq_empty_iff]
      intro c hc
      exact (hb c (List.mem_toFinset.mp hc)).not_gt
    · have hba := hb a ha
      have hnot : b ∉ l.toFinset.filter (· < a) := by
        intro hmem
        exact lt_irrefl b (hb b (List.mem_toFinset.mp (Finset.mem_filter.mp hmem).1))
      rw [List.idxOf_cons_ne _ hba.ne, if_pos hba, Finset.card_insert_of_notMem hnot, ih hl ha]

end Rticx.Lib.Rank
