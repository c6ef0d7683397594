import Rticx.AsyncPass.Dispatch
import Rticx.Lib.History

/-!
# The life of a future

One executor slot, the install function and the polls of its dispatcher in whatever order, and
wakers at any time. A waker holds nothing but the wake function of its task, so a waker of an
earlier instance sets the flag of whatever is in the slot now, or of an empty slot.

A future is told apart from others by how many were installed before it. The log notes what was
written to the slot's cell, what was polled and what was dropped, with what the cell held then.
-/

namespace Rticx.AsyncPass.SlotLife

open Lib AsyncRt

variable {I : Type}

/-! ## The slot and its dispatcher -/

/-- A future made from an input, the `generation`-th that is installed. -/
structure Future (I : Type) where
  generation : Nat
  input : I
  deriving DecidableEq

/-- Where the dispatcher is. -/
inductive Dispatcher (I : Type) where
  /-- neither in the install function nor in `poll` -/
  | outside
  /-- `if exec.try_allocate()` -/
  | tryAllocate
  /-- `let input = input_consumer.dequeue_unchecked()`, and the future made from it -/
  | dequeue
  /-- the write of `exec.spawn(future)` -/
  | write (input : I)
  /-- the `set_pending` of `exec.spawn(future)` -/
  | setPending
  /-- `if !self.is_running()` -/
  | isRunning
  /-- `if !self.check_and_clear_pending()` -/
  | checkPending
  /-- inside `future.poll` -/
  | polling
  /-- `drop_in_place` after `Poll::Ready(())` -/
  | dropping
  /-- `self.running.store(false)` -/
  | release

/-- The dispatcher is in the install function. -/
def Dispatcher.installs : Dispatcher I → Bool
  | .tryAllocate | .dequeue | .write _ | .setPending => true
  | _ => false

/-- The dispatcher is in `poll` and has not asked for the pending flag yet. -/
def Dispatcher.checks : Dispatcher I → Bool
  | .isRunning | .checkPending => true
  | _ => false

/-- The slot is `running` with no future in it. -/
def Dispatcher.allocated : Dispatcher I → Bool
  | .dequeue | .write _ | .release => true
  | _ => false

/-- The dispatcher has seen a running slot in this call of `poll`. -/
def Dispatcher.polls : Dispatcher I → Bool
  | .checkPending | .polling | .dropping => true
  | _ => false

/-- What happened, with what the cell held at that time. -/
inductive Event (I : Type) where
  /-- `spawn` wrote the future over what the cell held -/
  | write (cell : Option (Future I)) (f : Future I)
  /-- `future.poll` was called on the cell -/
  | poll (cell : Option (Future I))
  /-- a future returned `Poll::Ready(())` -/
  | ready (f : Future I)
  /-- `drop_in_place` was called on the cell -/
  | drop (cell : Option (Future I))

structure State (I : Type) where
  slot : ExecSlot (Future I)
  dispatcher : Dispatcher I
  made : Nat
  log : List (Event I)

/-- What may happen next. -/
inductive Action (I : Type) where
  /-- `set_pending`, by a waker in any context -/
  | setPending
  /-- the install function is called -/
  | install
  /-- `poll` is called -/
  | poll
  /-- the dispatcher takes the input out of the queue -/
  | dequeue (input : I)
  /-- the future that is being polled answers -/
  | answer (ready : Bool)
  /-- any other step of the dispatcher -/
  | run

/-- One step of the dispatcher that leaves nothing open. -/
def run (s : State I) : Option (State I) :=
  match s.dispatcher with
  | .outside | .dequeue | .polling => none
  | .tryAllocate =>
    let (ok, slot) := s.slot.tryAllocate
    some { s with slot := slot, dispatcher := if ok then .dequeue else .outside }
  | .write input =>
    let f : Future I := { generation := s.made, input := input }
    some { s with
      slot := s.slot.write f
      dispatcher := .setPending
      made := s.made + 1
      log := s.log ++ [.write s.slot.future f] }
  | .setPending => some { s with slot := s.slot.setPending, dispatcher := .outside }
  | .isRunning =>
    some { s with dispatcher := if s.slot.isRunning then .checkPending else .outside }
  | .checkPending =>
    let (ok, slot) := s.slot.checkAndClearPending
    if ok then
      some { s with slot := slot, dispatcher := .polling, log := s.log ++ [.poll s.slot.future] }
    else some { s with slot := slot, dispatcher := .outside }
  | .dropping =>
    some { s with
      slot := s.slot.dropInPlace
      dispatcher := .release
      log := s.log ++ [.drop s.slot.future] }
  | .release => some { s with slot := s.slot.release, dispatcher := .outside }

/-- The slot in the system. -/
def step (s : State I) : Action I → Option (State I)
  | .setPending => some { s with slot := s.slot.setPending }
  | .install =>
    match s.dispatcher with
    | .outside => some { s with dispatcher := .tryAllocate }
    | _ => none
  | .poll =>
    match s.dispatcher with
    | .outside => some { s with dispatcher := .isRunning }
    | _ => none
  | .dequeue input =>
    match s.dispatcher with
    | .dequeue => some { s with dispatcher := .write input }
    | _ => none
  | .answer ready =>
    match s.dispatcher, s.slot.future with
    | .polling, some f =>
      if ready then some { s with dispatcher := .dropping, log := s.log ++ [.ready f] }
      else some { s with dispatcher := .outside }
    -- polling what is not a live future has no meaning
    | _, _ => none
  | .run => run s

/-- The slot from reset. -/
def machine (I : Type) : Machine (State I) (Action I) where
  init := { slot := ExecSlot.new, dispatcher := .outside, made := 0, log := [] }
  step := step

/-! ## What a log may say -/

variable {f : Future I} {log : List (Event I)} {e : Event I}

/-- The future was installed. -/
def Written (f : Future I) (log : List (Event I)) : Prop := ∃ cell, Event.write cell f ∈ log

/-- The future was dropped. -/
def Dropped (f : Future I) (log : List (Event I)) : Prop := Event.drop (some f) ∈ log

@[simp] theorem written_concat :
    Written f (log ++ [e]) ↔ Written f log ∨ ∃ cell, e = Event.write cell f := by
  simp [Written, exists_or, eq_comm]

@[simp] theorem dropped_concat :
    Dropped f (log ++ [e]) ↔ Dropped f log ∨ e = Event.drop (some f) := by
  simp [Dropped, eq_comm]

/-- What may happen after `past`. -/
def Allowed (past : List (Event I)) : Event I → Prop
  | .write cell f => cell = none ∧ ¬ Written f past ∧ ∀ g, Written g past → Dropped g past
  | .poll cell => ∃ f, cell = some f ∧ Written f past ∧ ¬ Dropped f past
  | .ready f => Written f past ∧ ¬ Dropped f past ∧ Event.ready f ∉ past
  | .drop cell => ∃ f, cell = some f ∧ Event.ready f ∈ past ∧ ¬ Dropped f past

theorem written_of_ready (h : Every Allowed log) (hr : Event.ready f ∈ log) : Written f log := by
  obtain ⟨past, hpast, ⟨cell, hw⟩, -⟩ := h.of_mem hr
  exact ⟨cell, hpast.subset hw⟩

theorem written_of_dropped (h : Every Allowed log) (hd : Dropped f log) : Written f log := by
  obtain ⟨past, hpast, g, hg, hr, -⟩ := h.of_mem hd
  obtain rfl := Option.some.inj hg
  exact written_of_ready h (hpast.subset hr)

/-! ## The invariant -/

/-- The flags, the cell and the log agree about which future is live. -/
structure Inv (s : State I) : Prop where
  running : s.slot.running = (s.slot.future.isSome || s.dispatcher.allocated)
  free : s.dispatcher.allocated = true → s.slot.future = none
  polls : s.dispatcher.polls = true → s.slot.future.isSome = true
  cell : ∀ f, s.slot.future = some f → Written f s.log ∧ ¬ Dropped f s.log
  live : ∀ f, Written f s.log → Dropped f s.log ∨ s.slot.future = some f
  fresh : ∀ f, Written f s.log → f.generation < s.made
  ready : ∀ f, Event.ready f ∈ s.log →
    Dropped f s.log ∨ s.dispatcher = .dropping ∧ s.slot.future = some f
  dropping : s.dispatcher = .dropping → ∀ f, s.slot.future = some f → Event.ready f ∈ s.log
  allowed : Every Allowed s.log

variable {s s' t u : State I}

theorem inv_init : Inv (machine I).init where
  running := rfl
  free := fun _ => rfl
  polls := by rintro ⟨⟩
  cell := by rintro f ⟨⟩
  live := by rintro f ⟨_, ⟨⟩⟩
  fresh := by rintro f ⟨_, ⟨⟩⟩
  ready := by rintro f ⟨⟩
  dropping := by rintro ⟨⟩
  allowed := Every.nil

/-- `set_pending` says nothing about the future, whoever calls it and whenever. -/
theorem Inv.setPending (h : Inv s) : Inv { s with slot := s.slot.setPending } where
  running := h.running
  free := h.free
  polls := h.polls
  cell := h.cell
  live := h.live
  fresh := h.fresh
  ready := h.ready
  dropping := h.dropping
  allowed := h.allowed

/-- Another place of the dispatcher and other flags; the cell and the log as they are. -/
theorem Inv.move (h : Inv s) {slot : ExecSlot (Future I)} {d : Dispatcher I}
    (hf : slot.future = s.slot.future)
    (hr : slot.running = (s.slot.future.isSome || d.allocated))
    (hfree : d.allocated = true → s.slot.future = none)
    (hp : d.polls = true → s.slot.future.isSome = true)
    (hd : s.dispatcher ≠ .dropping) (hd' : d ≠ .dropping) :
    Inv { s with slot := slot, dispatcher := d } where
  running := by rw [hf]; exact hr
  free := by rw [hf]; exact hfree
  polls := by rw [hf]; exact hp
  cell := by rw [hf]; exact h.cell
  live := by rw [hf]; exact h.live
  fresh := h.fresh
  ready := fun f hm => Or.inl ((h.ready f hm).resolve_right fun hx => hd hx.1)
  dropping := fun hx => absurd hx hd'
  allowed := h.allowed

/-- Outside the two gaps `running` says whether there is a future. -/
theorem Inv.running_eq (h : Inv s) (ha : s.dispatcher.allocated = false) :
    s.slot.running = s.slot.future.isSome := by
  rw [h.running, ha, Bool.or_false]

/-- A slot that holds a future is running. -/
theorem Inv.running_of_future (h : Inv s) {f : Future I} (hf : s.slot.future = some f) :
    s.slot.running = true := by
  rw [h.running, hf]
  rfl

/-- The dispatcher goes where it relies on nothing. -/
theorem Inv.quiet (h : Inv s) {slot : ExecSlot (Future I)} {d : Dispatcher I}
    (hf : slot.future = s.slot.future) (hr : slot.running = s.slot.future.isSome)
    (hd : s.dispatcher ≠ .dropping) (ha : d.allocated = false) (hp : d.polls = false) :
    Inv { s with slot := slot, dispatcher := d } := by
  refine h.move hf (by rw [hr, ha, Bool.or_false]) (by rw [ha]; rintro ⟨⟩) (by rw [hp]; rintro ⟨⟩)
    hd ?_
  rintro rfl
  cases hp

/-- What was installed and is not in the cell was dropped. -/
theorem Inv.dropped_of_none (h : Inv s) (hnone : s.slot.future = none) (hw : Written f s.log) :
    Dropped f s.log := by
  refine (h.live f hw).resolve_right fun hf => ?_
  rw [hnone] at hf
  cases hf

/-! ## The steps -/

/-- The write of `spawn`: the cell is empty, and the future is one that was not there before. -/
theorem inv_write (h : Inv s) {input : I} (hd : s.dispatcher = .write input)
    (hs : run s = some s') : Inv s' := by
  simp only [run, hd, Option.some.injEq] at hs
  subst hs
  have hnone : s.slot.future = none := h.free (by rw [hd]; rfl)
  have hrun : s.slot.running = true := by rw [h.running, hd]; simp [Dispatcher.allocated]
  have hnew : ¬ Written ⟨s.made, input⟩ s.log := fun hw => Nat.lt_irrefl _ (h.fresh _ hw)
  have hdead : ∀ g, Written g s.log → Dropped g s.log := fun g => h.dropped_of_none hnone
  refine
    { running := hrun
      free := by rintro ⟨⟩
      polls := by rintro ⟨⟩
      cell := ?_
      live := ?_
      fresh := ?_
      ready := ?_
      dropping := by rintro ⟨⟩
      allowed := h.allowed.concat ⟨hnone, hnew, hdead⟩ }
  · rintro g hg
    obtain rfl : (⟨s.made, input⟩ : Future I) = g := Option.some.inj hg
    refine ⟨written_concat.mpr (Or.inr ⟨_, rfl⟩), fun hdrop => ?_⟩
    have hdrop : Dropped ⟨s.made, input⟩ s.log := by simpa using hdrop
    exact hnew (written_of_dropped h.allowed hdrop)
  · intro g hg
    rcases written_concat.mp hg with hg | ⟨cell, heq⟩
    · exact Or.inl (dropped_concat.mpr (Or.inl (hdead g hg)))
    · cases heq
      exact Or.inr rfl
  · intro g hg
    rcases written_concat.mp hg with hg | ⟨cell, heq⟩
    · exact Nat.lt_succ_of_lt (h.fresh g hg)
    · cases heq
      exact Nat.lt_succ_self _
  · intro g hg
    have hg : Event.ready g ∈ s.log := by simpa using hg
    refine Or.inl (dropped_concat.mpr (Or.inl ((h.ready g hg).resolve_right fun hx => ?_)))
    rw [hd] at hx
    cases hx.1

/-- The two checks of `poll`: only a running slot is asked for its flag. -/
theorem inv_checks (h : Inv s) (hd : s.dispatcher.checks = true) (hs : run s = some s') :
    Inv s' := by
  cases he : s.dispatcher with
  | isRunning =>
    simp only [run, he, Option.some.injEq] at hs
    subst hs
    have hrun := h.running_eq (by rw [he]; rfl)
    cases hr : s.slot.isRunning with
    | true =>
      refine h.move rfl (hrun.trans (Bool.or_false _).symm) (by rintro ⟨⟩) (fun _ => ?_)
        (by rw [he]; rintro ⟨⟩) (by rintro ⟨⟩)
      exact hrun.symm.trans hr
    | false => exact h.quiet rfl hrun (by rw [he]; rintro ⟨⟩) rfl rfl
  | checkPending =>
    have hsome := h.polls (by rw [he]; rfl)
    have hrun := h.running_eq (by rw [he]; rfl)
    obtain ⟨f, hf⟩ := Option.isSome_iff_exists.mp hsome
    cases hp : s.slot.pending with
    | false =>
      simp only [run, he, ExecSlot.checkAndClearPending_clear hp] at hs
      cases hs
      exact h.quiet rfl hrun (by rw [he]; rintro ⟨⟩) rfl rfl
    | true =>
      simp only [run, he, ExecSlot.checkAndClearPending_set hp] at hs
      cases hs
      have hmove : Inv { s with
          slot := { s.slot with pending := false }, dispatcher := .polling } :=
        h.move rfl (hrun.trans (Bool.or_false _).symm) (by rintro ⟨⟩) (fun _ => hsome)
          (by rw [he]; rintro ⟨⟩) (by rintro ⟨⟩)
      exact
        { hmove with
          cell := by simpa using hmove.cell
          live := by simpa using hmove.live
          fresh := by simpa using hmove.fresh
          ready := by simpa using hmove.ready
          dropping := by rintro ⟨⟩
          allowed := h.allowed.concat ⟨f, hf, h.cell f hf⟩ }
  | _ => rw [he] at hd; cases hd

/-- `drop_in_place` is given the future that has just returned `Ready`. -/
theorem inv_drop (h : Inv s) (hd : s.dispatcher = .dropping) (hs : run s = some s') : Inv s' := by
  simp only [run, hd, Option.some.injEq] at hs
  subst hs
  obtain ⟨f, hf⟩ := Option.isSome_iff_exists.mp (h.polls (by rw [hd]; rfl))
  refine
    { running := h.running_of_future hf
      free := fun _ => rfl
      polls := by rintro ⟨⟩
      cell := by rintro g ⟨⟩
      live := ?_
      fresh := by simpa using h.fresh
      ready := ?_
      dropping := by rintro ⟨⟩
      allowed := h.allowed.concat ⟨f, hf, h.dropping hd f hf, (h.cell f hf).2⟩ }
  · intro g hg
    refine Or.inl (dropped_concat.mpr ?_)
    exact (h.live g (by simpa using hg)).imp_right (congrArg Event.drop)
  · intro g hg
    refine Or.inl (dropped_concat.mpr ?_)
    exact (h.ready g (by simpa using hg)).imp_right fun hx => congrArg Event.drop hx.2

/-- The answer of a future: `Ready` is followed by its drop. -/
theorem inv_answer (h : Inv s) {ready : Bool} (hs : step s (.answer ready) = some s') : Inv s' := by
  simp only [step] at hs
  split at hs
  next f hd hf =>
    have hrun := h.running_of_future hf
    cases ready with
    | false =>
      cases hs
      exact h.quiet rfl (by rw [hrun, hf]; rfl) (by rw [hd]; rintro ⟨⟩) rfl rfl
    | true =>
      cases hs
      have hcell := h.cell f hf
      have hnot : Event.ready f ∉ s.log := by
        intro hr
        rcases h.ready f hr with hx | ⟨hx, -⟩
        · exact hcell.2 hx
        · rw [hd] at hx
          cases hx
      refine
        { running := by rw [hrun, hf]; rfl
          free := by rintro ⟨⟩
          polls := fun _ => by rw [hf]; rfl
          cell := by simpa using h.cell
          live := by simpa using h.live
          fresh := by simpa using h.fresh
          ready := ?_
          dropping := ?_
          allowed := h.allowed.concat ⟨hcell.1, hcell.2, hnot⟩ }
      · intro g hg
        rcases List.mem_append.mp hg with hg | hg
        · refine Or.inl (dropped_concat.mpr (Or.inl ((h.ready g hg).resolve_right ?_)))
          rintro ⟨hx, -⟩
          rw [hd] at hx
          cases hx
        · cases List.mem_singleton.mp hg
          exact Or.inr ⟨rfl, hf⟩
      · rintro - g hg
        rw [hf] at hg
        cases hg
        exact List.mem_append_right _ (List.mem_singleton_self _)
  · cases hs

/-- **A step of the dispatcher keeps the invariant.** -/
theorem inv_run (h : Inv s) (hs : run s = some s') : Inv s' := by
  cases he : s.dispatcher with
  | outside | dequeue | polling => rw [run, he] at hs; cases hs
  | tryAllocate =>
    simp only [run, he, Option.some.injEq] at hs
    subst hs
    have hrun := h.running_eq (by rw [he]; rfl)
    cases hr : s.slot.running with
    | true =>
      rw [ExecSlot.tryAllocate_running hr]
      exact h.quiet rfl hrun (by rw [he]; rintro ⟨⟩) rfl rfl
    | false =>
      rw [ExecSlot.tryAllocate_free hr]
      have hnone : s.slot.future = none := by simpa [hr] using hrun.symm
      refine h.move rfl ?_ (fun _ => hnone) (by rintro ⟨⟩) (by rw [he]; rintro ⟨⟩) (by rintro ⟨⟩)
      simp [Dispatcher.allocated]
  | write input => exact inv_write h he hs
  | setPending =>
    simp only [run, he, Option.some.injEq] at hs
    subst hs
    exact h.quiet rfl (h.running_eq (by rw [he]; rfl)) (by rw [he]; rintro ⟨⟩) rfl rfl
  | isRunning | checkPending => exact inv_checks h (by rw [he]; rfl) hs
  | dropping => exact inv_drop h he hs
  | release =>
    simp only [run, he, Option.some.injEq] at hs
    subst hs
    have hnone := h.free (by rw [he]; rfl)
    exact h.quiet rfl (by rw [hnone]; rfl) (by rw [he]; rintro ⟨⟩) rfl rfl

theorem inv_step (h : Inv s) {a : Action I} (hs : step s a = some s') : Inv s' := by
  cases a with
  | setPending => cases hs; exact h.setPending
  | install | poll =>
    simp only [step] at hs
    split at hs
    next he =>
      cases hs
      exact h.quiet rfl (h.running_eq (by rw [he]; rfl)) (by rw [he]; rintro ⟨⟩) rfl rfl
    · cases hs
  | dequeue input =>
    simp only [step] at hs
    split at hs
    next he =>
      cases hs
      have hrun := h.running
      rw [he] at hrun
      exact h.move rfl hrun (fun _ => h.free (by rw [he]; rfl)) (by rintro ⟨⟩)
        (by rw [he]; rintro ⟨⟩) (by rintro ⟨⟩)
    · cases hs
  | answer ready => exact inv_answer h hs
  | run => exact inv_run h hs

theorem inv_reachable (h : (machine I).Reachable s) : Inv s :=
  h.invariant inv_init fun _ _ _ _ hi hs => inv_step hi hs

/-! ## The pending flag -/

/-- What happened stays in the log. -/
theorem step_log {a : Action I} (hs : step s a = some s') : s.log <+: s'.log := by
  cases a with
  | setPending => cases hs; exact List.prefix_refl _
  | install | poll | dequeue _ | answer _ =>
    simp only [step] at hs
    repeat' split at hs
    all_goals cases hs
    all_goals first | exact List.prefix_refl _ | exact List.prefix_append _ _
  | run =>
    simp only [step, run] at hs
    repeat' split at hs
    all_goals cases hs
    all_goals first | exact List.prefix_refl _ | exact List.prefix_append _ _

/-- Outside its two checks `poll` leaves the flag alone, and everybody else does. -/
theorem step_pending {a : Action I} (hc : s.dispatcher.checks = false)
    (hp : s.slot.pending = true) (ha : a ≠ .poll) (hs : step s a = some s') :
    s'.dispatcher.checks = false ∧ s'.slot.pending = true := by
  cases a with
  | poll => exact absurd rfl ha
  | setPending => cases hs; exact ⟨hc, rfl⟩
  | install | dequeue _ | answer _ =>
    simp only [step] at hs
    repeat' split at hs
    all_goals cases hs
    all_goals exact ⟨rfl, hp⟩
  | run =>
    simp only [step, run] at hs
    cases hd : s.dispatcher with
    | isRunning | checkPending => rw [hd] at hc; cases hc
    | outside | dequeue | polling => rw [hd] at hs; cases hs
    | tryAllocate =>
      rw [hd] at hs
      cases hs
      cases hr : s.slot.running with
      | true => rw [ExecSlot.tryAllocate_running hr]; exact ⟨rfl, hp⟩
      | false => rw [ExecSlot.tryAllocate_free hr]; exact ⟨rfl, hp⟩
    | setPending => rw [hd] at hs; cases hs; exact ⟨rfl, rfl⟩
    | write _ | dropping | release => rw [hd] at hs; cases hs; exact ⟨rfl, hp⟩

/-- A flag that is set stays set until the next call of `poll`. -/
theorem exec_pending {as : List (Action I)} (hc : s.dispatcher.checks = false)
    (hp : s.slot.pending = true) (has : Action.poll ∉ as)
    (h : (machine I).exec s as = some t) : t.dispatcher.checks = false ∧ t.slot.pending = true := by
  induction as generalizing s with
  | nil => cases h; exact ⟨hc, hp⟩
  | cons a as ih =>
    obtain ⟨m, hm, ht⟩ := (machine I).exec_cons_eq_some.mp h
    rw [List.mem_cons, not_or] at has
    obtain ⟨hc', hp'⟩ := step_pending hc hp (Ne.symm has.1) hm
    exact ih hc' hp' has.2 ht

/-- The future was polled between two states. -/
def PolledBetween (f : Future I) (s u : State I) : Prop :=
  ∃ new, u.log = s.log ++ new ∧ Event.poll (some f) ∈ new

/-- The call of `poll` that began in `s` is on its way to its future, or has polled it. -/
def WillPoll (f : Future I) (s u : State I) : Prop :=
  (u.dispatcher.checks = true ∧ u.slot.pending = true ∧ u.slot.future = some f ∧ u.log = s.log) ∨
    PolledBetween f s u

theorem willPoll_step {f : Future I} {a : Action I} (hi : Inv u) (h : WillPoll f s u)
    (hs : step u a = some t) : WillPoll f s t := by
  rcases h with ⟨hc, hp, hf, hl⟩ | ⟨new, hl, hnew⟩
  · have hrun := hi.running_of_future hf
    cases a with
    | setPending => cases hs; exact Or.inl ⟨hc, rfl, hf, hl⟩
    | install | poll | dequeue _ =>
      simp only [step] at hs
      split at hs
      next hd => rw [hd] at hc; cases hc
      · cases hs
    | answer _ =>
      simp only [step] at hs
      split at hs
      next hd _ => rw [hd] at hc; cases hc
      · cases hs
    | run =>
      simp only [step, run] at hs
      cases hd : u.dispatcher with
      | isRunning =>
        simp only [hd, ExecSlot.isRunning, hrun] at hs
        cases hs
        exact Or.inl ⟨rfl, hp, hf, hl⟩
      | checkPending =>
        simp only [hd, ExecSlot.checkAndClearPending_set hp] at hs
        cases hs
        refine Or.inr ⟨[.poll (some f)], ?_, List.mem_singleton_self _⟩
        simp only [hl, hf]
      | _ => rw [hd] at hc; cases hc
  · obtain ⟨rest, hrest⟩ := step_log hs
    refine Or.inr ⟨new ++ rest, ?_, List.mem_append_left _ hnew⟩
    rw [← hrest, hl, List.append_assoc]

/-- **A call of `poll` that finds the flag set polls the future**, whatever else happens. -/
theorem exec_polls {f : Future I} {as : List (Action I)} (hr : (machine I).Reachable s)
    (hc : s.dispatcher.checks = true) (hp : s.slot.pending = true) (hf : s.slot.future = some f)
    (h : (machine I).exec s as = some u) (hu : u.dispatcher.checks = false) :
    PolledBetween f s u := by
  have hw : (machine I).Reachable u ∧ WillPoll f s u := by
    refine Machine.exec_invariant (P := fun u => (machine I).Reachable u ∧ WillPoll f s u) ?_
      ⟨hr, Or.inl ⟨hc, hp, hf, rfl⟩⟩ h
    rintro u a t ⟨hu, hw⟩ hs
    exact ⟨hu.step hs, willPoll_step (inv_reachable hu) hw hs⟩
  refine hw.2.resolve_left fun hx => ?_
  rw [hu] at hx
  cases hx.1

/-! ## The slot in every interleaving -/

/--
**A slot exposes no dead future.** In every state of every interleaving of the install function and
the polls with wakers of any age, whatever the futures answer:

* outside the install function and the gap between the drop and the store to `running`, the slot is
  `running` if and only if its cell holds a live future, that is one that was installed and not
  dropped;
* what `poll` polls and drops was installed and not dropped before;
* what `spawn` writes over is no future, and all futures it wrote earlier were dropped;
* a future is dropped only after it returned `Ready`, and only once; one that returned `Ready` was
  dropped, or is by the dispatcher's next step;
* a flag set while `poll` is past its checks makes the next call of `poll` poll the future that is
  live then; one set before makes this call do it.
-/
theorem no_dead_future_exposed (h : (machine I).Reachable s) :
    (s.dispatcher.installs = false → s.dispatcher ≠ .release →
      (s.slot.running = true ↔ s.slot.future.isSome = true)) ∧
    (∀ f, s.slot.future = some f ↔ Written f s.log ∧ ¬ Dropped f s.log) ∧
    (∀ past cell, past ++ [.poll cell] <+: s.log →
      ∃ f, cell = some f ∧ Written f past ∧ ¬ Dropped f past) ∧
    (∀ past cell f, past ++ [.write cell f] <+: s.log →
      cell = none ∧ ¬ Written f past ∧ ∀ g, Written g past → Dropped g past) ∧
    (∀ past cell, past ++ [.drop cell] <+: s.log →
      ∃ f, cell = some f ∧ Event.ready f ∈ past ∧ ¬ Dropped f past) ∧
    (∀ f, Event.ready f ∈ s.log →
      Dropped f s.log ∨ ∃ s', step s .run = some s' ∧ Dropped f s'.log) ∧
    (s.dispatcher.checks = false → ∀ as t f, Action.poll ∉ as →
      (machine I).exec s (.setPending :: as) = some t → t.slot.future = some f →
      ∀ bs u, (machine I).exec t (.poll :: bs) = some u → u.dispatcher.checks = false →
        PolledBetween f t u) ∧
    (s.dispatcher.checks = true → ∀ as u f, (machine I).exec s (.setPending :: as) = some u →
      s.slot.future = some f → u.dispatcher.checks = false → PolledBetween f s u) := by
  have hi := inv_reachable h
  refine ⟨fun hn hr => ?_, fun f => ⟨hi.cell f, fun hf => (hi.live f hf.1).resolve_left hf.2⟩,
    fun past cell hp => hi.allowed past _ hp, fun past cell f hp => hi.allowed past _ hp,
    fun past cell hp => hi.allowed past _ hp, fun f hf => ?_, ?_, ?_⟩
  · have ha : s.dispatcher.allocated = false := by
      cases hd : s.dispatcher with
      | release => exact absurd hd hr
      | dequeue | write _ => rw [hd] at hn; cases hn
      | _ => rfl
    rw [hi.running_eq ha]
  · refine (hi.ready f hf).imp_right fun ⟨hd, hcell⟩ => ?_
    refine ⟨_, by simp only [step, run, hd]; rfl, ?_⟩
    exact dropped_concat.mpr (Or.inr (by rw [hcell]))
  · intro hc as t f has ht hf bs u hu hcu
    obtain ⟨m, hm, ht⟩ := (machine I).exec_cons_eq_some.mp ht
    cases hm
    have htr : (machine I).Reachable t := (h.step (a := .setPending) rfl).exec ht
    obtain ⟨-, hp⟩ := exec_pending (s := { s with slot := s.slot.setPending }) hc rfl has ht
    obtain ⟨t', ht', hu⟩ := (machine I).exec_cons_eq_some.mp hu
    have ht'r := htr.step ht'
    simp only [machine, step] at ht'
    split at ht'
    · cases ht'
      exact exec_polls (s := { t with dispatcher := .isRunning }) ht'r rfl hp hf hu hcu
    · cases ht'
  · intro hc as u f hu hf hcu
    obtain ⟨m, hm, hu⟩ := (machine I).exec_cons_eq_some.mp hu
    have hmr := h.step hm
    cases hm
    exact exec_polls (s := { s with slot := s.slot.setPending }) hmr hc rfl hf hu hcu

/--
Between the drop and the store to `running` the dispatcher is not in the install function, and the
slot is `running` with an empty cell.
-/
theorem running_after_drop :
    ¬ ∀ s, (machine Nat).Reachable s → s.dispatcher.installs = false →
      (s.slot.running = true ↔ s.slot.future.isSome = true) := by
  intro h
  have hr : ∃ s, (machine Nat).exec (machine Nat).init
      [.install, .run, .dequeue 7, .run, .run, .poll, .run, .run, .answer true, .run] = some s ∧
      s.dispatcher.installs = false ∧ s.slot.running = true ∧ s.slot.future = none :=
    ⟨_, rfl, rfl, rfl, rfl⟩
  obtain ⟨s, hs, hn, hrun, hf⟩ := hr
  have := (h s (Machine.reachable_iff_exec.mpr ⟨_, hs⟩) hn).mp hrun
  rw [hf] at this
  cases this

/-- A waker of the first instance wakes the second. -/
def staleWaker : List (Action Nat) :=
  [.install, .run, .dequeue 7, .run, .run, .poll, .run, .run, .answer true, .run, .setPending, .run,
    .install, .run, .dequeue 8, .run, .run, .poll, .run, .run]

theorem no_dead_future_exposed_stale_waker :
    ∃ s t u, (machine Nat).exec (machine Nat).init staleWaker = some s ∧
      (machine Nat).exec s [.setPending, .answer false] = some t ∧
      t.slot.future = some ⟨1, 8⟩ ∧
      (machine Nat).exec t [.poll, .run, .run] = some u ∧ PolledBetween ⟨1, 8⟩ t u := by
  refine ⟨_, _, _, rfl, rfl, rfl, rfl, ?_⟩
  have h : (machine Nat).Reachable _ := Machine.reachable_iff_exec.mpr ⟨staleWaker, rfl⟩
  exact (no_dead_future_exposed h).2.2.2.2.2.2.1 rfl [.answer false] _ _ (by simp) rfl rfl
    [.run, .run] _ rfl rfl

/-! ## The slots of a group -/

section Group

open SwPass Dispatch

variable {G : Group} {kind : Kind} {hasCoreId : Bool} {d d' : Dispatch.State G I}
  {s s' : State (Option I)}

/-- Where the executor is, as far as the slot of `t` is concerned. -/
def place (t : G.Task) : Executor G I → Dispatcher (Option I)
  | .tryAllocate _ u => if u = t then .tryAllocate else .outside
  | .dequeueInput _ u => if u = t then .dequeue else .outside
  | .write _ u f => if u = t then .write f else .outside
  | .setPending _ u => if u = t then .setPending else .outside
  | .poll (u :: _) => if u = t then .isRunning else .outside
  | .checkPending u _ => if u = t then .checkPending else .outside
  | .polling u _ => if u = t then .polling else .outside
  | .dropping u _ => if u = t then .dropping else .outside
  | .release u _ => if u = t then .release else .outside
  | _ => .outside

/-- The slot of `t` in the group is this one, but for the generation of its future. -/
structure Shows (t : G.Task) (d : Dispatch.State G I) (s : State (Option I)) : Prop where
  slot : d.slots t = s.slot.map Future.input
  place : s.dispatcher = place t d.executor

theorem setSlot_of_ne {u t : G.Task} (hu : u ≠ t) {slot : ExecSlot (Option I)} :
    (d.setSlot u slot).slots t = d.slots t := Function.update_of_ne hu.symm ..

/-- The slot can follow. -/
def Follows (t : G.Task) (d : Dispatch.State G I) (s : State (Option I)) : Prop :=
  ∃ as s', (machine (Option I)).exec s as = some s' ∧ Shows t d s'

variable {t : G.Task}

theorem Follows.of_step {a : Action (Option I)} (hs : step s a = some s') (h : Follows t d s') :
    Follows t d s := by
  obtain ⟨as, s'', has, hshows⟩ := h
  exact ⟨a :: as, s'', (machine (Option I)).exec_cons_eq_some.mpr ⟨s', hs, has⟩, hshows⟩

/-- The places at which the executor may arrive from outside. -/
def Dispatcher.arrives : Dispatcher I → Bool
  | .outside | .tryAllocate | .isRunning => true
  | _ => false

/-- From outside the slot is left alone, or one of its two functions is called. -/
theorem Follows.of_outside (ho : s.dispatcher = .outside)
    (hslot : d.slots t = s.slot.map Future.input)
    (hp : (place t d.executor).arrives = true) : Follows t d s := by
  cases hd : place t d.executor with
  | outside => exact ⟨[], s, rfl, hslot, ho.trans hd.symm⟩
  | tryAllocate =>
    have hs : step s .install = some { s with dispatcher := .tryAllocate } := by
      simp only [step, ho]
    exact Follows.of_step hs ⟨[], _, rfl, hslot, hd.symm⟩
  | isRunning =>
    have hs : step s .poll = some { s with dispatcher := .isRunning } := by
      simp only [step, ho]
    exact Follows.of_step hs ⟨[], _, rfl, hslot, hd.symm⟩
  | _ => rw [hd] at hp; cases hp

/-- Every task may be the next one. -/
theorem arrives_poll (t : G.Task) (stmts : List G.Task) :
    (place t (.poll stmts : Executor G I)).arrives = true := by
  cases stmts with
  | nil => rfl
  | cons u stmts =>
    simp only [place]
    split <;> rfl

theorem arrives_tryAllocate (t u : G.Task) (phase : Phase G) :
    (place t (.tryAllocate phase u : Executor G I)).arrives = true := by
  simp only [place]
  split <;> rfl

theorem place_installed (t : G.Task) (phase : Phase G) :
    place t (phase.installed : Executor G I) = .outside := by cases phase <;> rfl

theorem place_busy (t : G.Task) (phase : Phase G) :
    place t (phase.busy : Executor G I) = .outside := by cases phase <;> rfl

/-! While it is busy with another task or with the queues, the executor leaves the slot alone. -/

theorem outside_install {ready : Bool} (phase : Phase G) {u : G.Task} (hu : u ≠ t)
    (he : d.executor = .tryAllocate phase u ∨ d.executor = .dequeueInput phase u ∨
      (∃ f, d.executor = .write phase u f) ∨ d.executor = .setPending phase u)
    (hd : executorStep kind ready d = some d') :
    d'.slots t = d.slots t ∧ (place t d'.executor).arrives = true := by
  rw [executorStep] at hd
  rcases he with he | he | ⟨f, he⟩ | he
  all_goals
    simp only [he, Option.some.injEq] at hd
    subst hd
  · refine ⟨setSlot_of_ne hu, ?_⟩
    cases (d.slots u).tryAllocate.1 <;> simp [place, hu, Dispatcher.arrives]
  · exact ⟨rfl, by simp [place, hu, Dispatcher.arrives]⟩
  · exact ⟨setSlot_of_ne hu, by simp [place, hu, Dispatcher.arrives]⟩
  · exact ⟨setSlot_of_ne hu, by rw [place_installed]; rfl⟩

theorem outside_poll {ready : Bool} {u : G.Task} (stmts : List G.Task) (hu : u ≠ t)
    (he : d.executor = .poll (u :: stmts) ∨ d.executor = .checkPending u stmts ∨
      d.executor = .polling u stmts ∨ d.executor = .dropping u stmts ∨
      d.executor = .release u stmts)
    (hd : executorStep kind ready d = some d') :
    d'.slots t = d.slots t ∧ (place t d'.executor).arrives = true := by
  rw [executorStep] at hd
  rcases he with he | he | he | he | he
  · simp only [he, Option.some.injEq] at hd
    subst hd
    refine ⟨rfl, ?_⟩
    cases (d.slots u).isRunning
    · exact arrives_poll ..
    · simp [place, hu, Dispatcher.arrives]
  · simp only [he, Option.some.injEq] at hd
    subst hd
    refine ⟨setSlot_of_ne hu, ?_⟩
    cases (d.slots u).checkAndClearPending.1
    · exact arrives_poll ..
    · simp [place, hu, Dispatcher.arrives]
  · rw [he] at hd
    simp only at hd
    split at hd <;> cases hd
    · exact ⟨rfl, rfl⟩
    · cases ready
      · exact ⟨rfl, arrives_poll ..⟩
      · exact ⟨rfl, by simp [place, hu, Dispatcher.arrives]⟩
  · rw [he] at hd
    cases hd
    exact ⟨setSlot_of_ne hu, by simp [place, hu, Dispatcher.arrives]⟩
  · rw [he] at hd
    cases hd
    exact ⟨setSlot_of_ne hu, arrives_poll ..⟩

theorem outside_control {ready : Bool}
    (he : d.executor = .drain ∨ d.executor = .poll [] ∨ (∃ phase u, d.executor = .defer phase u) ∨
      (∃ r, d.executor = .collect r) ∨ (∃ r u, d.executor = .store r u) ∨
      (∃ r i, d.executor = .scan r i) ∨ d.executor = .repend)
    (hd : executorStep kind ready d = some d') :
    d'.slots t = d.slots t ∧ (place t d'.executor).arrives = true := by
  rw [executorStep] at hd
  rcases he with he | he | ⟨phase, u, he⟩ | ⟨r, he⟩ | ⟨r, u, he⟩ | ⟨r, i, he⟩ | he
  all_goals rw [he] at hd
  · simp only at hd
    split at hd <;> cases hd
    · exact ⟨rfl, arrives_poll ..⟩
    · exact ⟨rfl, arrives_tryAllocate ..⟩
    · exact ⟨rfl, rfl⟩
  · cases hd
    exact ⟨rfl, rfl⟩
  · cases hd
    exact ⟨rfl, by rw [place_busy]; rfl⟩
  · simp only at hd
    split at hd <;> cases hd
    all_goals exact ⟨rfl, rfl⟩
  · cases hd
    refine ⟨rfl, ?_⟩
    simp only
    split <;> rfl
  · rcases r with _ | ⟨u, r⟩
    · cases kind with
      | dispatcher => cases hd; cases i <;> exact ⟨rfl, rfl⟩
      | idle => cases hd; exact ⟨rfl, rfl⟩
    · cases hd
      exact ⟨rfl, arrives_tryAllocate ..⟩
  · cases hd
    exact ⟨rfl, rfl⟩

/-! What it does in the two functions of the slot, the slot does as well. -/

theorem Follows.of_run (hs : step s .run = some s') (hslot : d.slots t = s'.slot.map Future.input)
    (hplace : s'.dispatcher = place t d.executor) : Follows t d s :=
  Follows.of_step hs ⟨[], s', rfl, hslot, hplace⟩

theorem follows_install (h : Shows t d s) {ready : Bool} (phase : Phase G)
    (he : d.executor = .tryAllocate phase t ∨ d.executor = .dequeueInput phase t ∨
      (∃ f, d.executor = .write phase t f) ∨ d.executor = .setPending phase t)
    (hd : executorStep kind ready d = some d') : Follows t d' s := by
  obtain ⟨hslot, hplace⟩ := h
  rw [executorStep] at hd
  rcases he with he | he | ⟨f, he⟩ | he
  all_goals
    simp only [he, Option.some.injEq] at hd
    subst hd
    simp only [he, place, if_true] at hplace
  · refine Follows.of_run (by simp only [step, run, hplace]; rfl) ?_ ?_
    · rw [hslot, ExecSlot.map_tryAllocate]
      exact setSlot_self ..
    · rw [hslot, ExecSlot.map_tryAllocate]
      cases s.slot.tryAllocate.1 <;> simp [place]
  · have hstep : step s (.dequeue (d.statics.inputs t).dequeueUnchecked.1) =
        some { s with dispatcher := .write (d.statics.inputs t).dequeueUnchecked.1 } := by
      simp only [step, hplace]
    exact Follows.of_step hstep ⟨[], _, rfl, hslot, by simp [place]⟩
  · refine Follows.of_run (by simp only [step, run, hplace]; rfl) ?_ (by simp [place])
    rw [hslot]
    exact setSlot_self ..
  · refine Follows.of_run (by simp only [step, run, hplace]; rfl) ?_ (place_installed t phase).symm
    rw [hslot]
    exact setSlot_self ..

/-- The two checks of `poll`, behind which the executor may be at the next slot already. -/
theorem follows_checks (h : Shows t d s) {ready : Bool} (stmts : List G.Task)
    (he : d.executor = .poll (t :: stmts) ∨ d.executor = .checkPending t stmts)
    (hd : executorStep kind ready d = some d') : Follows t d' s := by
  obtain ⟨hslot, hplace⟩ := h
  rw [executorStep] at hd
  rcases he with he | he
  all_goals
    simp only [he, Option.some.injEq] at hd
    subst hd
    simp only [he, place, if_true] at hplace
  · rw [hslot]
    cases hrun : s.slot.isRunning with
    | true =>
      have hstep : step s .run = some { s with dispatcher := .checkPending } := by
        simp only [step, run, hplace, hrun, if_true]
      rw [if_pos (show (s.slot.map Future.input).isRunning = true from hrun)]
      exact Follows.of_run hstep hslot (by simp [place])
    | false =>
      have hstep : step s .run = some { s with dispatcher := .outside } := by
        simp only [step, run, hplace, hrun]
        rfl
      have hfree : ¬ (s.slot.map Future.input).isRunning = true := Bool.eq_false_iff.mp hrun
      rw [if_neg hfree]
      exact Follows.of_step hstep (Follows.of_outside rfl hslot (arrives_poll ..))
  · rw [hslot, ExecSlot.map_checkAndClearPending]
    cases hpend : s.slot.pending with
    | true =>
      have hstep : step s .run = some { s with
          slot := { s.slot with pending := false }
          dispatcher := .polling
          log := s.log ++ [.poll s.slot.future] } := by
        simp only [step, run, hplace, ExecSlot.checkAndClearPending_set hpend]
        rfl
      rw [ExecSlot.checkAndClearPending_set hpend]
      exact Follows.of_run hstep (setSlot_self ..) (by simp [place])
    | false =>
      have hstep : step s .run = some { s with dispatcher := .outside } := by
        simp only [step, run, hplace, ExecSlot.checkAndClearPending_clear hpend]
        rfl
      rw [ExecSlot.checkAndClearPending_clear hpend]
      exact Follows.of_step hstep (Follows.of_outside rfl (setSlot_self ..) (arrives_poll ..))

/-- The poll of the future itself and what follows it. -/
theorem follows_polling (hr : (machine (Option I)).Reachable s) (h : Shows t d s) {ready : Bool}
    (stmts : List G.Task)
    (he : d.executor = .polling t stmts ∨ d.executor = .dropping t stmts ∨
      d.executor = .release t stmts)
    (hd : executorStep kind ready d = some d') : Follows t d' s := by
  obtain ⟨hslot, hplace⟩ := h
  rw [executorStep] at hd
  rcases he with he | he | he
  all_goals simp only [he, place, if_true] at hplace
  · -- the slot has a future, so the group has one
    obtain ⟨f, hf⟩ := Option.isSome_iff_exists.mp ((inv_reachable hr).polls (by rw [hplace]; rfl))
    have hfd : (d.slots t).future = some f.input := by
      rw [hslot]
      simp [ExecSlot.map, hf]
    simp only [he, hfd, Option.some.injEq] at hd
    subst hd
    cases ready with
    | true =>
      have hstep : step s (.answer true) =
          some { s with dispatcher := .dropping, log := s.log ++ [.ready f] } := by
        simp only [step, hplace, hf, if_true]
      exact Follows.of_step hstep ⟨[], _, rfl, hslot, by simp [place]⟩
    | false =>
      have hstep : step s (.answer false) = some { s with dispatcher := .outside } := by
        simp only [step, hplace, hf]
        rfl
      exact Follows.of_step hstep (Follows.of_outside rfl hslot (arrives_poll ..))
  · simp only [he, Option.some.injEq] at hd
    subst hd
    refine Follows.of_run (by simp only [step, run, hplace]; rfl) ?_ (by simp [place])
    rw [hslot]
    exact setSlot_self ..
  · simp only [he, Option.some.injEq] at hd
    subst hd
    have hstep : step s .run = some { s with slot := s.slot.release, dispatcher := .outside } := by
      simp only [step, run, hplace]
    refine Follows.of_step hstep (Follows.of_outside rfl ?_ (arrives_poll ..))
    rw [hslot]
    exact setSlot_self ..

/-- **The slot follows every step of the executor.** -/
theorem executorStep_follows (hr : (machine (Option I)).Reachable s) (h : Shows t d s)
    {ready : Bool} (hd : executorStep kind ready d = some d') : Follows t d' s := by
  -- outside it is left alone
  have outside : place t d.executor = .outside →
      d'.slots t = d.slots t ∧ (place t d'.executor).arrives = true → Follows t d' s :=
    fun hp hsame => Follows.of_outside (h.place.trans hp) (hsame.1.trans h.slot) hsame.2
  cases he : d.executor with
  | inactive | fault => rw [executorStep, he] at hd; cases hd
  | tryAllocate phase u | dequeueInput phase u | write phase u f | setPending phase u =>
    by_cases hu : u = t
    · subst hu
      exact follows_install h phase (by simp [he]) hd
    · exact outside (by simp [he, place, hu]) (outside_install phase hu (by simp [he]) hd)
  | poll stmts =>
    rcases stmts with _ | ⟨u, stmts⟩
    · exact outside (by rw [he]; rfl) (outside_control (by simp [he]) hd)
    · by_cases hu : u = t
      · subst hu
        exact follows_checks h stmts (by simp [he]) hd
      · exact outside (by simp [he, place, hu]) (outside_poll stmts hu (by simp [he]) hd)
  | checkPending u stmts =>
    by_cases hu : u = t
    · subst hu
      exact follows_checks h stmts (by simp [he]) hd
    · exact outside (by simp [he, place, hu]) (outside_poll stmts hu (by simp [he]) hd)
  | polling u stmts | dropping u stmts | release u stmts =>
    by_cases hu : u = t
    · subst hu
      exact follows_polling hr h stmts (by simp [he]) hd
    · exact outside (by simp [he, place, hu]) (outside_poll stmts hu (by simp [he]) hd)
  | drain | defer phase u | collect r | store r u | scan r i | repend =>
    exact outside (by rw [he]; rfl) (outside_control (by simp [he]) hd)

/-- Spawns and pends do not come near the slots; a waker sets the flag of one. -/
theorem step_follows (hr : (machine (Option I)).Reachable s) (h : Shows t d s)
    {a : Dispatch.Action G I} (hd : Dispatch.step kind hasCoreId d a = some d') :
    Follows t d' s := by
  cases a with
  | systemInitialized | pend | spawn u input caller pendOk =>
    cases hd
    exact ⟨[], s, rfl, h.slot, h.place⟩
  | wakePend =>
    simp only [Dispatch.step] at hd
    split at hd <;> cases hd
    exact ⟨[], s, rfl, h.slot, h.place⟩
  | enter =>
    simp only [Dispatch.step] at hd
    split at hd
    next he =>
      split at hd <;> cases hd
      refine ⟨[], s, rfl, h.slot, ?_⟩
      rw [h.place, he]
      rfl
    · cases hd
  | wake u =>
    cases hd
    by_cases hu : u = t
    · subst hu
      refine Follows.of_step (a := .setPending) rfl ⟨[], _, rfl, ?_, h.place⟩
      rw [h.slot]
      exact setSlot_self ..
    · exact ⟨[], s, rfl, (setSlot_of_ne hu).trans h.slot, h.place⟩
  | run ready => exact executorStep_follows hr h hd

/-- **The slots of a group are such slots.** Whatever the group does, each of its slots is in a
state that a slot on its own can be in. -/
theorem exists_slot (t : G.Task) (h : (Dispatch.machine kind G I hasCoreId).Reachable d) :
    ∃ s, (machine (Option I)).Reachable s ∧ Shows t d s := by
  induction h with
  | init => exact ⟨_, Machine.Reachable.init, rfl, rfl⟩
  | step _ hd ih =>
    obtain ⟨s, hr, hs⟩ := ih
    obtain ⟨as, s', has, hs'⟩ := step_follows hr hs hd
    exact ⟨s', hr.exec has, hs'⟩

end Group

end Rticx.AsyncPass.SlotLife
