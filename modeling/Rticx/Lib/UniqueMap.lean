import Mathlib.Data.List.AList
import Rticx.Lib.Except

/-!
# Maps whose keys must be new

A loop that puts pairs into a map and fails at a key that is there already. It succeeds when the keys
are distinct, and then the map has the pairs, whatever their order.
-/

namespace Rticx.Lib.UniqueMap

open Rticx.Lib.Except

variable {α β ε : Type} [DecidableEq α]

/-- The map with one pair more. -/
def insertNew (error : α → ε) (map : AList fun _ : α => β) (pair : α × β) :
    Except ε (AList fun _ : α => β) :=
  if (map.lookup pair.1).isSome then .error (error pair.1) else .ok (map.insert pair.1 pair.2)

/-- The map of all pairs. -/
def build (error : α → ε) (pairs : List (α × β)) : Except ε (AList fun _ : α => β) :=
  pairs.foldlM (insertNew error) ∅

variable {error : α → ε} {pairs : List (α × β)} {map map' : AList fun _ : α => β} {a : α} {b : β}

/-- What the loop finds in the end: what was there and the pairs. -/
theorem lookup_foldlM (h : pairs.foldlM (insertNew error) map = .ok map') :
    map'.lookup a = some b ↔ map.lookup a = some b ∨ (a, b) ∈ pairs := by
  induction pairs generalizing map with
  | nil =>
    cases h
    simp
  | cons pair pairs ih =>
    rw [List.foldlM_cons, bind_eq_ok] at h
    obtain ⟨mid, hmid, h⟩ := h
    unfold insertNew at hmid
    split at hmid
    · cases hmid
    · rename_i hnew
      cases hmid
      rw [ih h, List.mem_cons, ← or_assoc]
      refine or_congr_left ?_
      obtain ⟨k, v⟩ := pair
      by_cases hk : a = k
      · subst hk
        have hnone : map.lookup a = none := by simpa using hnew
        rw [AList.lookup_insert, hnone]
        simp [eq_comm]
      · rw [AList.lookup_insert_ne hk]
        simp [hk]

theorem foldlM_ok_iff :
    (∃ map', pairs.foldlM (insertNew error) map = .ok map') ↔
      (pairs.map Prod.fst).Nodup ∧ ∀ pair ∈ pairs, map.lookup pair.1 = none := by
  induction pairs generalizing map with
  | nil => exact iff_of_true ⟨map, rfl⟩ ⟨List.nodup_nil, by simp⟩
  | cons pair pairs ih =>
    rw [List.map_cons, List.nodup_cons, List.forall_mem_cons]
    constructor
    · rintro ⟨map', h⟩
      rw [List.foldlM_cons, bind_eq_ok] at h
      obtain ⟨mid, hmid, h⟩ := h
      unfold insertNew at hmid
      split at hmid
      · cases hmid
      · rename_i hnew
        cases hmid
        obtain ⟨hnodup, hfresh⟩ := ih.mp ⟨map', h⟩
        have hne : ∀ p ∈ pairs, p.1 ≠ pair.1 := by
          intro p hp heq
          have := hfresh p hp
          rw [heq, AList.lookup_insert] at this
          cases this
        refine ⟨⟨fun hmem => ?_, hnodup⟩, by simpa using hnew, fun p hp => ?_⟩
        · obtain ⟨p, hp, heq⟩ := List.mem_map.mp hmem
          exact hne p hp heq
        · have := hfresh p hp
          rwa [AList.lookup_insert_ne (hne p hp)] at this
    · rintro ⟨⟨hnot, hnodup⟩, hnew, hfresh⟩
      have hfresh' : ∀ p ∈ pairs, (map.insert pair.1 pair.2).lookup p.1 = none := by
        intro p hp
        rw [AList.lookup_insert_ne fun heq => hnot (List.mem_map.mpr ⟨p, hp, heq⟩)]
        exact hfresh p hp
      obtain ⟨map', h⟩ := ih.mpr ⟨hnodup, hfresh'⟩
      refine ⟨map', ?_⟩
      rw [List.foldlM_cons]
      refine bind_eq_ok.mpr ⟨_, ?_, h⟩
      unfold insertNew
      rw [hnew]
      rfl

/-- **The map can be built exactly when the keys are distinct.** -/
theorem build_ok_iff : (∃ map, build error pairs = .ok map) ↔ (pairs.map Prod.fst).Nodup := by
  unfold build
  rw [foldlM_ok_iff]
  exact and_iff_left fun pair _ => AList.lookup_empty pair.1

/-- **The map has the pairs.** -/
theorem lookup_build (h : build error pairs = .ok map) :
    map.lookup a = some b ↔ (a, b) ∈ pairs := by
  rw [lookup_foldlM h, AList.lookup_empty]
  simp

end Rticx.Lib.UniqueMap
