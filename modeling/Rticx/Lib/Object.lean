import Mathlib.Tactic.Common

/-!
# Objects that answer calls

An object has a state that only its calls change, and every call answers. A call that is not
allowed in a state, or that ends in a fault, is `none`.

* `Object.run` makes a list of calls one after the other.
* `Object.Implements` compares two objects by nothing but their answers; a simulation shows it.
-/

namespace Rticx.Lib

universe u v w

/-- An object with the calls `α` and the answers `β`. -/
structure Object (σ : Type u) (α : Type v) (β : Type w) where
  init : σ
  call : σ → α → Option (β × σ)

namespace Object

variable {σ τ : Type*} {α β : Type*} (O : Object σ α β) (S : Object τ α β)

/-- The answers of a list of calls, and the state after it. -/
def run : σ → List α → Option (List β × σ)
  | s, [] => some ([], s)
  | s, a :: as => (O.call s a).bind fun r => (run r.2 as).map fun rs => (r.1 :: rs.1, rs.2)

theorem run_cons_eq_some {s s' : σ} {a : α} {as : List α} {bs : List β} :
    O.run s (a :: as) = some (bs, s') ↔
      ∃ b t bs', O.call s a = some (b, t) ∧ O.run t as = some (bs', s') ∧ bs = b :: bs' := by
  rw [run, Option.bind_eq_some_iff]
  constructor
  · rintro ⟨⟨b, t⟩, hcall, hrun⟩
    obtain ⟨⟨bs', u⟩, hrun', heq⟩ := Option.map_eq_some_iff.mp hrun
    cases heq
    exact ⟨b, t, bs', hcall, hrun', rfl⟩
  · rintro ⟨b, t, bs', hcall, hrun, rfl⟩
    exact ⟨(b, t), hcall, by rw [hrun]; rfl⟩

theorem run_append {s t : σ} {as : List α} {bs : List β} (h : O.run s as = some (bs, t))
    (as' : List α) :
    O.run s (as ++ as') = (O.run t as').map fun rs => (bs ++ rs.1, rs.2) := by
  induction as generalizing s bs with
  | nil =>
    cases h
    simp
  | cons a as ih =>
    obtain ⟨b, u, bs', hcall, hrun, rfl⟩ := O.run_cons_eq_some.mp h
    rw [List.cons_append, run, hcall, Option.bind_some, ih hrun, Option.map_map]
    rfl

/-- Split a run after its first part. -/
theorem run_trans {s t u : σ} {as as' : List α} {bs bs' : List β}
    (h : O.run s as = some (bs, t)) (h' : O.run t as' = some (bs', u)) :
    O.run s (as ++ as') = some (bs ++ bs', u) := by
  rw [O.run_append h, h']
  rfl

/-- The answers of a list of calls to the new object. -/
def answers (as : List α) : Option (List β) := (O.run O.init as).map Prod.fst

theorem answers_of_run {as : List α} {bs : List β} {s : σ} (h : O.run O.init as = some (bs, s)) :
    O.answers as = some bs := by
  rw [answers, h]
  rfl

/-- Whatever calls the second object allows, the first one answers them in the same way. -/
def Implements : Prop := ∀ as bs, S.answers as = some bs → O.answers as = some bs

variable {O S}

/-- **The simulation rule.** The relation may depend on the calls that are still to come. -/
theorem run_of_simulation {R : List α → σ → τ → Prop} (rest : List α)
    (hcall : ∀ a as s t b t', R (a :: as) s t → S.call t a = some (b, t') →
      ∃ s', O.call s a = some (b, s') ∧ R as s' t')
    {as : List α} {s : σ} {t t' : τ} {bs : List β} (h : R (as ++ rest) s t)
    (hrun : S.run t as = some (bs, t')) : ∃ s', O.run s as = some (bs, s') ∧ R rest s' t' := by
  induction as generalizing s t bs with
  | nil =>
    cases hrun
    exact ⟨s, rfl, h⟩
  | cons a as ih =>
    obtain ⟨b, u, bs', hst, hrun', rfl⟩ := S.run_cons_eq_some.mp hrun
    obtain ⟨s₁, hs₁, hR⟩ := hcall a (as ++ rest) s t b u h hst
    obtain ⟨s', hs', hR'⟩ := ih hR hrun'
    exact ⟨s', O.run_cons_eq_some.mpr ⟨b, s₁, bs', hs₁, hs', rfl⟩, hR'⟩

theorem answers_of_simulation {R : List α → σ → τ → Prop}
    (hcall : ∀ a as s t b t', R (a :: as) s t → S.call t a = some (b, t') →
      ∃ s', O.call s a = some (b, s') ∧ R as s' t')
    {as : List α} {bs : List β} (hinit : R as O.init S.init) (h : S.answers as = some bs) :
    O.answers as = some bs := by
  obtain ⟨⟨bs', t⟩, hrun, rfl⟩ := Option.map_eq_some_iff.mp h
  obtain ⟨s, hs, -⟩ := run_of_simulation [] hcall (by rwa [List.append_nil]) hrun
  exact O.answers_of_run hs

theorem Implements.of_simulation {R : σ → τ → Prop}
    (hcall : ∀ a s t b t', R s t → S.call t a = some (b, t') →
      ∃ s', O.call s a = some (b, s') ∧ R s' t') (hinit : R O.init S.init) : O.Implements S :=
  fun _ _ h => answers_of_simulation (R := fun _ => R) (fun a _ => hcall a) hinit h

end Object

end Rticx.Lib
