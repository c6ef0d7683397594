import Mathlib.Order.Lattice
import Mathlib.Data.List.Nodup
import Mathlib.Data.List.Sort
import Mathlib.Tactic.Common

/-!
# Sorted maps

A finite map as a list of entries with increasing keys, which is the order an ordered map is
iterated in. `update` changes or creates one entry; everything else is built from it.
-/

namespace Rticx.Lib

universe u v

/-- The entries of a map, in the order of their keys. -/
structure SortedMap (α : Type u) (β : Type v) [LinearOrder α] where
  entries : List (α × β)
  sorted : (entries.map Prod.fst).Pairwise (· < ·)

namespace SortedMap

variable {α : Type u} {β : Type v} [LinearOrder α]

def empty : SortedMap α β := ⟨[], List.Pairwise.nil⟩

def keys (m : SortedMap α β) : List α := m.entries.map Prod.fst

def get? (m : SortedMap α β) (k : α) : Option β :=
  (m.entries.find? fun e => decide (e.1 = k)).map Prod.snd

/-! ## Changing one entry -/

/-- `f` of the value at `k`, if there is one, becomes the value at `k`. -/
def updateEntries (k : α) (f : Option β → β) : List (α × β) → List (α × β)
  | [] => [(k, f none)]
  | e :: es =>
    if k < e.1 then (k, f none) :: e :: es
    else if e.1 = k then (k, f (some e.2)) :: es
    else e :: updateEntries k f es

variable {k k' : α} {f : Option β → β} {es : List (α × β)}

theorem mem_updateEntries_keys :
    k' ∈ (updateEntries k f es).map Prod.fst ↔ k' = k ∨ k' ∈ es.map Prod.fst := by
  induction es with
  | nil => simp [updateEntries]
  | cons e es ih =>
    rw [updateEntries]
    split
    · simp
    · split
      · rename_i heq
        simp [heq]
      · rw [List.map_cons, List.mem_cons, ih, List.map_cons, List.mem_cons]
        tauto

theorem updateEntries_sorted (h : (es.map Prod.fst).Pairwise (· < ·)) :
    ((updateEntries k f es).map Prod.fst).Pairwise (· < ·) := by
  induction es with
  | nil => exact List.pairwise_singleton _ _
  | cons e es ih =>
    obtain ⟨he, hes⟩ := List.pairwise_cons.mp h
    rw [updateEntries]
    split
    · rename_i hlt
      refine List.pairwise_cons.mpr ⟨fun a ha => ?_, h⟩
      rcases List.mem_cons.mp ha with rfl | ha
      · exact hlt
      · exact lt_trans hlt (he a ha)
    · split
      · rename_i heq
        subst heq
        exact h
      · rename_i hle hne
        refine List.pairwise_cons.mpr ⟨fun a ha => ?_, ih hes⟩
        rcases mem_updateEntries_keys.mp ha with rfl | ha
        · exact lt_of_le_of_ne (not_lt.mp hle) hne
        · exact he a ha

/-- `f` of the value at `k`, if there is one, becomes the value at `k`. -/
def update (m : SortedMap α β) (k : α) (f : Option β → β) : SortedMap α β :=
  ⟨updateEntries k f m.entries, updateEntries_sorted m.sorted⟩

/-- The entries of `m'` replace those of `m`. -/
def extend (m m' : SortedMap α β) : SortedMap α β :=
  m'.entries.foldl (fun m e => m.update e.1 fun _ => e.2) m

/-- The entries at these keys. -/
def filter (m : SortedMap α β) (p : α → Bool) : SortedMap α β :=
  ⟨m.entries.filter fun e => p e.1, m.sorted.sublist (List.filter_sublist.map Prod.fst)⟩

/-! ## Look-ups -/

variable {m : SortedMap α β} {v : β}

theorem find?_updateEntries (h : (es.map Prod.fst).Pairwise (· < ·)) :
    ((updateEntries k f es).find? fun e => decide (e.1 = k')).map Prod.snd =
      if k' = k then some (f ((es.find? fun e => decide (e.1 = k)).map Prod.snd))
      else (es.find? fun e => decide (e.1 = k')).map Prod.snd := by
  induction es with
  | nil =>
    by_cases hk : k' = k
    · simp [updateEntries, hk]
    · simp [updateEntries, hk, Ne.symm hk]
  | cons e es ih =>
    obtain ⟨he, hes⟩ := List.pairwise_cons.mp h
    have hnone : k < e.1 → ((e :: es).find? fun e => decide (e.1 = k)) = none := by
      intro hlt
      rw [List.find?_eq_none]
      intro x hx heq
      have heq : x.1 = k := by simpa using heq
      rcases List.mem_cons.mp hx with rfl | hx
      · exact absurd heq (ne_of_gt hlt)
      · exact absurd (heq ▸ he x.1 (List.mem_map_of_mem hx)) (not_lt_of_gt hlt)
    rw [updateEntries]
    split
    · rename_i hlt
      by_cases hk : k' = k
      · subst hk
        rw [if_pos rfl, hnone hlt]
        simp
      · rw [if_neg hk, List.find?_cons_of_neg (by simpa using Ne.symm hk)]
    · split
      · rename_i heq
        by_cases hk : k' = k
        · simp [hk, heq]
        · rw [if_neg hk, List.find?_cons_of_neg (by simpa using Ne.symm hk),
            List.find?_cons_of_neg (by simpa [heq] using Ne.symm hk)]
      · rename_i hne
        have ih := ih hes
        by_cases hk : e.1 = k'
        · have hkk : k' ≠ k := fun hkk => hne (hk.trans hkk)
          rw [if_neg hkk, List.find?_cons_of_pos (by simpa using hk),
            List.find?_cons_of_pos (by simpa using hk)]
        · rw [List.find?_cons_of_neg (by simpa using hk), ih,
            List.find?_cons_of_neg (by simpa using hne), List.find?_cons_of_neg (by simpa using hk)]

/-- **Only the entry at `k` changes.** -/
theorem get?_update :
    (m.update k f).get? k' = if k' = k then some (f (m.get? k)) else m.get? k' :=
  find?_updateEntries m.sorted

@[simp] theorem get?_empty : (empty : SortedMap α β).get? k = none := rfl

/-- What is found is an entry, and the only one at its key. -/
theorem get?_eq_some : m.get? k = some v ↔ (k, v) ∈ m.entries := by
  unfold get?
  rw [Option.map_eq_some_iff]
  constructor
  · rintro ⟨⟨a, b⟩, hfind, rfl⟩
    have hkey : a = k := by simpa using List.find?_some hfind
    subst hkey
    exact List.mem_of_find?_eq_some hfind
  · intro hmem
    cases hfind : m.entries.find? fun e => decide (e.1 = k) with
    | none =>
      have := List.find?_eq_none.mp hfind (k, v) hmem
      simp at this
    | some e =>
      have hkey : e.1 = k := by simpa using List.find?_some hfind
      have he := List.mem_of_find?_eq_some hfind
      have hnd : (m.entries.map Prod.fst).Nodup := m.sorted.imp fun h => ne_of_lt h
      have := List.inj_on_of_nodup_map hnd he hmem hkey
      exact ⟨e, rfl, by rw [this]⟩

theorem get?_filter {p : α → Bool} :
    (m.filter p).get? k = some v ↔ p k = true ∧ m.get? k = some v := by
  rw [get?_eq_some, get?_eq_some, filter, List.mem_filter, and_comm]

theorem mem_keys : k ∈ m.keys ↔ ∃ v, m.get? k = some v := by
  simp only [get?_eq_some, keys, List.mem_map, Prod.exists, exists_and_right, exists_eq_right]

theorem get?_foldl_update {es : List (α × β)} (hnd : (es.map Prod.fst).Nodup) :
    (es.foldl (fun m e => m.update e.1 fun _ => e.2) m).get? k =
      ((es.find? fun e => decide (e.1 = k)).map Prod.snd).or (m.get? k) := by
  induction es generalizing m with
  | nil => rfl
  | cons e es ih =>
    obtain ⟨he, hes⟩ := List.nodup_cons.mp hnd
    rw [List.foldl_cons, ih hes, get?_update]
    by_cases hk : e.1 = k
    · have hnone : (es.find? fun e => decide (e.1 = k)) = none := by
        rw [List.find?_eq_none]
        intro x hx heq
        have heq : x.1 = k := by simpa using heq
        exact he (hk ▸ heq ▸ List.mem_map_of_mem hx)
      rw [hnone, List.find?_cons_of_pos (by simpa using hk), if_pos hk.symm]
      rfl
    · rw [List.find?_cons_of_neg (by simpa using hk), if_neg (Ne.symm hk)]

/-- Entries with keys of their own are written beside those that are there. -/
theorem get?_foldl_update_iff {es : List (α × β)} (hnd : (es.map Prod.fst).Nodup)
    (hnew : ∀ k ∈ es.map Prod.fst, m.get? k = none) :
    (es.foldl (fun m e => m.update e.1 fun _ => e.2) m).get? k = some v ↔
      (k, v) ∈ es ∨ m.get? k = some v := by
  rw [get?_foldl_update hnd, Option.or_eq_some_iff]
  constructor
  · rintro (h | ⟨_, h⟩)
    · obtain ⟨⟨a, b⟩, hfind, rfl⟩ := Option.map_eq_some_iff.mp h
      have hkey : a = k := by simpa using List.find?_some hfind
      exact Or.inl (hkey ▸ List.mem_of_find?_eq_some hfind)
    · exact Or.inr h
  · rintro (hmem | h)
    · cases hfind : es.find? fun e => decide (e.1 = k) with
      | none => simpa using List.find?_eq_none.mp hfind (k, v) hmem
      | some e =>
        have hkey : e.1 = k := by simpa using List.find?_some hfind
        have := List.inj_on_of_nodup_map hnd (List.mem_of_find?_eq_some hfind) hmem hkey
        exact Or.inl (by rw [this]; rfl)
    · refine Or.inr ⟨?_, h⟩
      rw [Option.map_eq_none_iff, List.find?_eq_none]
      intro e he heq
      have heq : e.1 = k := by simpa using heq
      rw [hnew k (heq ▸ List.mem_map_of_mem he)] at h
      cases h

/-- The second map comes first. -/
theorem get?_extend {m' : SortedMap α β} :
    (m.extend m').get? k = (m'.get? k).or (m.get? k) :=
  get?_foldl_update (m'.sorted.imp fun h => ne_of_lt h)

theorem mem_extend {m' : SortedMap α β} {e : α × β} (h : e ∈ (m.extend m').entries) :
    e ∈ m'.entries ∨ e ∈ m.entries := by
  rw [← get?_eq_some, get?_extend, Option.or_eq_some_iff] at h
  rcases h with h | ⟨_, h⟩
  · exact Or.inl (get?_eq_some.mp h)
  · exact Or.inr (get?_eq_some.mp h)

theorem mem_keys_extend {m' : SortedMap α β} :
    k ∈ (m.extend m').keys ↔ k ∈ m'.keys ∨ k ∈ m.keys := by
  simp only [mem_keys, get?_extend]
  cases m'.get? k with
  | none => simp
  | some v => simp

/-! ## The order of the entries -/

theorem keys_eq {ks : List α} (hks : ks.Pairwise (· < ·)) (h : ∀ k, k ∈ m.keys ↔ k ∈ ks) :
    m.keys = ks :=
  m.sorted.eq_of_mem_iff hks h

/-- Entries that are sorted already keep their order. -/
theorem entries_foldl_update {es : List (α × β)} (hes : (es.map Prod.fst).Pairwise (· < ·)) :
    (es.foldl (fun m e => m.update e.1 fun _ => e.2) empty).entries = es := by
  have hmem : ∀ e, e ∈ (es.foldl (fun m e => m.update e.1 fun _ => e.2) empty).entries ↔ e ∈ es := by
    rintro ⟨k, v⟩
    have hfind : get? ⟨es, hes⟩ k = some v ↔ (k, v) ∈ es := get?_eq_some (m := ⟨es, hes⟩)
    rw [← get?_eq_some, get?_foldl_update (hes.imp ne_of_lt), get?_empty, Option.or_none]
    exact hfind
  have hirrefl : Std.Irrefl fun a b : α × β => a.1 < b.1 := ⟨fun a => lt_irrefl a.1⟩
  have hantisymm : Std.Antisymm fun a b : α × β => a.1 < b.1 :=
    ⟨fun a b hab hba => absurd (hab.trans hba) (lt_irrefl a.1)⟩
  exact (List.pairwise_map.mp (sorted _)).eq_of_mem_iff (List.pairwise_map.mp hes) hmem

end SortedMap

end Rticx.Lib
