import Mathlib.Data.List.Range
import Mathlib.Tactic.Common

/-!
# Positions on a ring

A queue over `n` slots whose two counters are never reduced works with slot numbers `i % n`. As
long as the counters stay within `n` of each other, equal slot numbers mean equal positions; that
is all the index arithmetic such a queue needs.
-/

namespace Rticx.Lib.Ring

variable {n r w i j : Nat}

/-- **Within one turn of the ring, equal slots are equal positions.** -/
theorem eq_of_mod_eq (hi : r ≤ i) (hj : r ≤ j) (hi' : i < r + n) (hj' : j < r + n)
    (h : i % n = j % n) : i = j := by
  wlog hle : i ≤ j generalizing i j
  · exact (this hj hi hj' hi' h.symm (by omega)).symm
  have hdvd : n ∣ j - i := Nat.dvd_of_mod_eq_zero (Nat.sub_mod_eq_zero_of_mod_eq h.symm)
  have hzero : j - i = 0 := Nat.eq_zero_of_dvd_of_lt hdvd (by omega)
  omega

/-- The two counters name one slot exactly when the ring is empty. -/
theorem mod_eq_iff_empty (hle : r ≤ w) (hlt : w < r + n) : r % n = w % n ↔ r = w := by
  constructor
  · exact fun h => eq_of_mod_eq (le_refl r) hle (by omega) hlt h
  · rintro rfl; rfl

/-- The slot after the write counter is the read slot exactly when one slot is left. -/
theorem succ_mod_eq_iff_full (hle : r ≤ w) (hlt : w < r + n) :
    (w + 1) % n = r % n ↔ w + 1 = r + n := by
  constructor
  · intro h
    by_contra hne
    have := eq_of_mod_eq (show r ≤ w + 1 by omega) (le_refl r) (by omega) (by omega) h
    omega
  · intro h
    rw [h, Nat.add_mod_right]

/-- A free position shares no slot with the occupied ones. -/
theorem mod_ne_of_occupied (hi : r ≤ i) (hiw : i < w) (hlt : w < r + n) : w % n ≠ i % n := by
  intro h
  have := eq_of_mod_eq (show r ≤ w by omega) hi hlt (by omega) h
  omega

/-- Reading a list off its positions. -/
theorem filterMap_range {α : Type*} :
    ∀ (l : List α) (f : Nat → Option α), (∀ i x, l[i]? = some x → f i = some x) →
      (List.range l.length).filterMap f = l
  | [], _, _ => rfl
  | x :: l, f, h => by
    rw [List.length_cons, List.range_succ_eq_map, List.filterMap_cons_some (h 0 x rfl),
      List.filterMap_map, filterMap_range l (f ∘ Nat.succ) fun i y hy => h (i + 1) y hy]

end Rticx.Lib.Ring
