import Mathlib.Tactic.Common

/-!
# Computations that succeed

What a successful computation in `Except` says about its parts: one rule for each way to build it.
-/

namespace Rticx.Lib.Except

universe u v w

variable {ε : Type u} {α β γ : Type v}

theorem ok_bind (a : α) (f : α → Except ε β) : (.ok a >>= f) = f a := rfl

theorem bind_eq_ok {x : Except ε α} {f : α → Except ε β} {b : β} :
    (x >>= f) = .ok b ↔ ∃ a, x = .ok a ∧ f a = .ok b := by
  cases x with
  | error e => simp [Bind.bind, Except.bind]
  | ok a => simp [Bind.bind, Except.bind]

theorem map_eq_ok {x : Except ε α} {f : α → β} {b : β} :
    x.map f = .ok b ↔ ∃ a, x = .ok a ∧ f a = b := by
  cases x with
  | error e => simp [Except.map]
  | ok a => simp [Except.map]

/-- The rule of a loop: what one round keeps, the loop keeps. -/
theorem foldlM_ok {f : β → α → Except ε β} {P : β → Prop} {l : List α} {b b' : β}
    (hstep : ∀ b a b', a ∈ l → P b → f b a = .ok b' → P b') (hb : P b)
    (h : l.foldlM f b = .ok b') : P b' := by
  induction l generalizing b with
  | nil =>
    cases h
    exact hb
  | cons a l ih =>
    rw [List.foldlM_cons, bind_eq_ok] at h
    obtain ⟨c, hc, h⟩ := h
    exact ih (fun b a b' ha => hstep b a b' (List.mem_cons_of_mem _ ha))
      (hstep b a c List.mem_cons_self hb hc) h

/-- Every result of a loop comes from one of its inputs. -/
theorem mapM_ok {f : α → Except ε β} {l : List α} {l' : List β} (h : l.mapM f = .ok l') :
    ∀ b ∈ l', ∃ a ∈ l, f a = .ok b := by
  induction l generalizing l' with
  | nil =>
    cases h
    intro b hb
    cases hb
  | cons a l ih =>
    rw [List.mapM_cons, bind_eq_ok] at h
    obtain ⟨b, hb, h⟩ := h
    obtain ⟨l'', hl, h⟩ := bind_eq_ok.mp h
    cases h
    intro c hc
    rcases List.mem_cons.mp hc with rfl | hc
    · exact ⟨a, List.mem_cons_self, hb⟩
    · obtain ⟨a', ha', hf⟩ := ih hl c hc
      exact ⟨a', List.mem_cons_of_mem a ha', hf⟩

/-- Every input of a loop has a result. -/
theorem exists_of_mapM_ok {f : α → Except ε β} {l : List α} {l' : List β} (h : l.mapM f = .ok l') :
    ∀ a ∈ l, ∃ b ∈ l', f a = .ok b := by
  induction l generalizing l' with
  | nil =>
    intro a ha
    cases ha
  | cons a l ih =>
    rw [List.mapM_cons, bind_eq_ok] at h
    obtain ⟨b, hb, h⟩ := h
    obtain ⟨l'', hl, h⟩ := bind_eq_ok.mp h
    cases h
    intro c hc
    rcases List.mem_cons.mp hc with rfl | hc
    · exact ⟨b, List.mem_cons_self, hb⟩
    · obtain ⟨b', hb', hf⟩ := ih hl c hc
      exact ⟨b', List.mem_cons_of_mem b hb', hf⟩

/-- A loop of checks succeeds if every check does. -/
theorem forM_ok_iff {f : α → Except ε PUnit} {l : List α} :
    l.forM f = .ok ⟨⟩ ↔ ∀ a ∈ l, f a = .ok ⟨⟩ := by
  induction l with
  | nil => exact ⟨fun _ a ha => absurd ha List.not_mem_nil, fun _ => rfl⟩
  | cons a l ih =>
    rw [List.forall_mem_cons, ← ih]
    constructor
    · intro h
      obtain ⟨_, hf, h⟩ := bind_eq_ok.mp h
      exact ⟨hf, h⟩
    · rintro ⟨hf, h⟩
      exact bind_eq_ok.mpr ⟨_, hf, h⟩

/-- A loop that succeeds has had a successful round for every input. -/
theorem exists_of_foldlM_ok {f : β → α → Except ε β} {l : List α} {b b' : β}
    (h : l.foldlM f b = .ok b') : ∀ a ∈ l, ∃ c c', f c a = .ok c' := by
  induction l generalizing b with
  | nil =>
    intro a ha
    cases ha
  | cons a l ih =>
    rw [List.foldlM_cons, bind_eq_ok] at h
    obtain ⟨c, hc, h⟩ := h
    intro d hd
    rcases List.mem_cons.mp hd with rfl | hd
    · exact ⟨b, c, hc⟩
    · exact ih h d hd

/-- **When a loop succeeds.** What its rounds keep tells when they succeed. -/
theorem foldlM_ok_iff {f : β → α → Except ε β} {P : β → Prop} {C : α → Prop} {l : List α} {b : β}
    (hround : ∀ b a, P b → ((∃ b', f b a = .ok b') ↔ C a))
    (hkeep : ∀ b a b', P b → f b a = .ok b' → P b') (hb : P b) :
    (∃ b', l.foldlM f b = .ok b') ↔ ∀ a ∈ l, C a := by
  induction l generalizing b with
  | nil => exact ⟨fun _ a ha => absurd ha List.not_mem_nil, fun _ => ⟨b, rfl⟩⟩
  | cons a l ih =>
    rw [List.forall_mem_cons]
    constructor
    · rintro ⟨b', h⟩
      rw [List.foldlM_cons, bind_eq_ok] at h
      obtain ⟨c, hc, h⟩ := h
      exact ⟨(hround b a hb).mp ⟨c, hc⟩, (ih (hkeep b a c hb hc)).mp ⟨b', h⟩⟩
    · rintro ⟨ha, hl⟩
      obtain ⟨c, hc⟩ := (hround b a hb).mpr ha
      obtain ⟨b', h⟩ := (ih (hkeep b a c hb hc)).mpr hl
      exact ⟨b', by rw [List.foldlM_cons]; exact bind_eq_ok.mpr ⟨c, hc, h⟩⟩

theorem mapM_ok_iff {f : α → Except ε β} {l : List α} :
    (∃ l', l.mapM f = .ok l') ↔ ∀ a ∈ l, ∃ b, f a = .ok b := by
  constructor
  · rintro ⟨l', h⟩ a ha
    obtain ⟨b, -, hb⟩ := exists_of_mapM_ok h a ha
    exact ⟨b, hb⟩
  · intro h
    induction l with
    | nil => exact ⟨[], rfl⟩
    | cons a l ih =>
      rw [List.forall_mem_cons] at h
      obtain ⟨b, hb⟩ := h.1
      obtain ⟨l', hl'⟩ := ih h.2
      refine ⟨b :: l', ?_⟩
      rw [List.mapM_cons]
      exact bind_eq_ok.mpr ⟨b, hb, bind_eq_ok.mpr ⟨l', hl', rfl⟩⟩

theorem error_iff {x : Except ε α} : (∃ e, x = .error e) ↔ ¬ ∃ a, x = .ok a := by
  cases x <;> simp

/-- What a loop collects is what its rounds collect. -/
theorem foldlM_collects {γ : Type w} {f : β → α → Except ε β} {g : β → List γ} {h : α → List γ}
    {l : List α} {b b' : β}
    (hstep : ∀ a ∈ l, ∀ b b', f b a = .ok b' → g b' = g b ++ h a) (hrun : l.foldlM f b = .ok b') :
    g b' = g b ++ l.flatMap h := by
  induction l generalizing b with
  | nil =>
    cases hrun
    simp
  | cons a l ih =>
    rw [List.foldlM_cons, bind_eq_ok] at hrun
    obtain ⟨c, hc, hrun⟩ := hrun
    rw [ih (fun a ha => hstep a (List.mem_cons_of_mem _ ha)) hrun,
      hstep a List.mem_cons_self b c hc, List.flatMap_cons, List.append_assoc]

/-- A loop over some of the inputs follows a loop over all of them, where the rounds do. -/
theorem foldlM_simulates {α' β' : Type v} {f : β → α → Except ε β} {f' : β' → α' → Except ε β'}
    {t : α → Option α'} {e : β → β'} {l : List α} {b b' : β}
    (hstep : ∀ a ∈ l, ∀ b b', f b a = .ok b' →
      ((t a).map (f' (e b))).getD (.ok (e b)) = .ok (e b'))
    (hrun : l.foldlM f b = .ok b') : (l.filterMap t).foldlM f' (e b) = .ok (e b') := by
  induction l generalizing b with
  | nil =>
    cases hrun
    rfl
  | cons a l ih =>
    rw [List.foldlM_cons, bind_eq_ok] at hrun
    obtain ⟨c, hc, hrun⟩ := hrun
    have ha := hstep a List.mem_cons_self b c hc
    have ih := ih (fun a ha => hstep a (List.mem_cons_of_mem _ ha)) hrun
    cases ht : t a with
    | none =>
      rw [ht] at ha
      rw [List.filterMap_cons_none ht, Except.ok.inj ha]
      exact ih
    | some a' =>
      rw [ht] at ha
      rw [List.filterMap_cons_some ht, List.foldlM_cons]
      exact bind_eq_ok.mpr ⟨e c, ha, ih⟩

/-- A loop follows another one over the same inputs, where the rounds do. -/
theorem mapM_simulates {β' : Type v} {f : α → Except ε β} {f' : α → Except ε β'} {e : β → β'}
    {l : List α} {l' : List β} (hstep : ∀ a b, f a = .ok b → f' a = .ok (e b))
    (hrun : l.mapM f = .ok l') : l.mapM f' = .ok (l'.map e) := by
  induction l generalizing l' with
  | nil =>
    cases hrun
    rfl
  | cons a l ih =>
    rw [List.mapM_cons, bind_eq_ok] at hrun
    obtain ⟨b, hb, hrun⟩ := hrun
    obtain ⟨l'', hl, hrun⟩ := bind_eq_ok.mp hrun
    cases hrun
    rw [List.mapM_cons]
    exact bind_eq_ok.mpr ⟨e b, hstep a b hb, bind_eq_ok.mpr ⟨l''.map e, ih hl, rfl⟩⟩

/-- The results of a loop, in the order of its inputs. -/
theorem mapM_forall₂ {f : α → Except ε β} {l : List α} {l' : List β} (h : l.mapM f = .ok l') :
    List.Forall₂ (fun a b => f a = .ok b) l l' := by
  induction l generalizing l' with
  | nil =>
    cases h
    exact List.Forall₂.nil
  | cons a l ih =>
    rw [List.mapM_cons, bind_eq_ok] at h
    obtain ⟨b, hb, h⟩ := h
    obtain ⟨l'', hl, h⟩ := bind_eq_ok.mp h
    cases h
    exact List.Forall₂.cons hb (ih hl)

theorem mapM_ok_iff_forall₂ {f : α → Except ε β} {l : List α} {l' : List β} :
    l.mapM f = .ok l' ↔ List.Forall₂ (fun a b => f a = .ok b) l l' := by
  constructor
  · exact mapM_forall₂
  · intro h
    induction h with
    | nil => rfl
    | cons hab _ ih =>
      rw [List.mapM_cons]
      exact bind_eq_ok.mpr ⟨_, hab, bind_eq_ok.mpr ⟨_, ih, rfl⟩⟩

/-- What the results of a loop are made of, input by input. -/
theorem flatMap_of_mapM_ok {γ : Type w} {f : α → Except ε β} {g : β → List γ} {h : α → List γ}
    {l : List α} {l' : List β} (hmap : l.mapM f = .ok l')
    (hstep : ∀ a b, f a = .ok b → g b = h a) : l'.flatMap g = l.flatMap h := by
  have hforall := mapM_forall₂ hmap
  clear hmap
  induction hforall with
  | nil => rfl
  | cons hab _ ih => rw [List.flatMap_cons, List.flatMap_cons, hstep _ _ hab, ih]

/-- The same where each result is made from its input. -/
theorem flatMap_mapM_ok {γ : Type w} {f : α → Except ε β} {g : β → List γ} {l : List α} {l' : List β}
    (hmap : l.mapM f = .ok l') :
    l'.flatMap g = l.flatMap fun a =>
      match f a with
      | .ok b => g b
      | .error _ => [] := by
  refine flatMap_of_mapM_ok hmap ?_
  intro a b hab
  rw [hab]

/-- A loop is its first round and the rest of it. -/
theorem mapM_cons_bind {γ : Type v} {f : α → Except ε β} {a : α} {l : List α}
    {g : List β → Except ε γ} :
    (a :: l).mapM f >>= g = f a >>= fun b => l.mapM f >>= fun l' => g (b :: l') := by
  rw [List.mapM_cons, bind_assoc]
  refine congrArg (_ >>= ·) (funext fun b => ?_)
  rw [bind_assoc]
  rfl

/-- A loop that checks the inputs one by one checks all of them. -/
theorem foldlM_bind_pure {γ : Type w} {f : α → Except ε γ} {g : β → γ → β} {l : List α} {b : β} :
    l.foldlM (fun b a => (f a).map (g b)) b = (l.mapM f).map fun l' => l'.foldl g b := by
  induction l generalizing b with
  | nil => rfl
  | cons a l ih =>
    rw [List.foldlM_cons, List.mapM_cons]
    cases f a with
    | error e => rfl
    | ok c =>
      show l.foldlM (fun b a => (f a).map (g b)) (g b c) = _
      rw [ih]
      cases l.mapM f <;> rfl

/-- Rounds that do the same on another state make up a loop that does the same. -/
theorem foldlM_map {γ : Type w} {f : β → α → Except ε β} {f' : γ → α → Except ε γ} {e : β → γ}
    {l : List α} {b : β} (h : ∀ b a, f' (e b) a = (f b a).map e) :
    l.foldlM f' (e b) = (l.foldlM f b).map e := by
  induction l generalizing b with
  | nil => rfl
  | cons a l ih =>
    rw [List.foldlM_cons, List.foldlM_cons, h]
    cases f b a with
    | error _ => rfl
    | ok b' => exact ih

end Rticx.Lib.Except
