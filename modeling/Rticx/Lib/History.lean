import Mathlib.Data.List.Infix

/-!
# Histories

A log of what happened, the latest last. `Every` says that each entry was allowed by the entries
before it, as in "no use before the write" or "no second drop".
-/

namespace Rticx.Lib

variable {ε : Type*}

/-- Each entry of the log meets a condition on the entries before it. -/
def Every (P : List ε → ε → Prop) (log : List ε) : Prop :=
  ∀ past e, past ++ [e] <+: log → P past e

namespace Every

variable {P Q : List ε → ε → Prop} {log : List ε}

theorem nil : Every P [] := by
  intro past e h
  have := List.prefix_nil.mp h
  simp at this

/-- A log grows by an entry that is allowed. -/
theorem concat_iff {e : ε} : Every P (log ++ [e]) ↔ Every P log ∧ P log e := by
  constructor
  · intro h
    exact ⟨fun past x hx => h past x (hx.trans (List.prefix_append _ _)),
      h log e (List.prefix_refl _)⟩
  · rintro ⟨h, he⟩ past x hx
    rcases List.prefix_concat_iff.mp hx with heq | hx
    · obtain ⟨rfl, hxe⟩ := List.append_inj' heq rfl
      cases hxe
      exact he
    · exact h past x hx

theorem concat {e : ε} (h : Every P log) (he : P log e) : Every P (log ++ [e]) :=
  concat_iff.mpr ⟨h, he⟩

/-- An entry was allowed by some earlier part of the log. -/
theorem of_mem (h : Every P log) {e : ε} (he : e ∈ log) : ∃ past, past <+: log ∧ P past e := by
  obtain ⟨past, rest, rfl⟩ := List.append_of_mem he
  refine ⟨past, List.prefix_append _ _, h past e ⟨rest, ?_⟩⟩
  rw [List.append_assoc, List.singleton_append]

theorem of_prefix {log' : List ε} (h : Every P log') (hp : log <+: log') : Every P log :=
  fun past e he => h past e (he.trans hp)

end Every

end Rticx.Lib
