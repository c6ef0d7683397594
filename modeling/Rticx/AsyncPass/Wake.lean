import Rticx.AsyncPass.Dispatch

/-!
# Wake-ups

A group of priority 1 or more has nothing but the pending bit of its dispatcher to remember that
there is work. Whoever makes work pends the interrupt afterwards: a spawn inside its critical
section, a waker after `set_pending`, and the dispatcher itself if phase B installed a future that
this round does not poll any more.
-/

namespace Rticx.AsyncPass.Dispatch

open Lib Spsc SwPass AsyncRt

variable {G : Group} {I : Type} {hasCoreId : Bool} {s s' : State G I} {r o : List G.Task}
  {q : G.Task → List I}

/-! ## What the dispatcher will still do in this round -/

def Phase.draining : Phase G → Bool
  | .a => true
  | .b _ _ => false

/-- Phase A is not over. -/
def Executor.draining : Executor G I → Bool
  | .drain => true
  | .tryAllocate phase _ | .dequeueInput phase _ | .write phase _ _ | .setPending phase _
  | .defer phase _ => phase.draining
  | _ => false

/-- Every slot is polled after phase A; after phase B the dispatcher repends if it installed. -/
def Phase.willPoll : Phase G → Prop
  | .a => True
  | .b _ installed => installed = true

/-- The dispatcher will look at the flag of `t`, or will pend itself. -/
def Executor.willPoll (t : G.Task) : Executor G I → Prop
  | .drain | .dequeueInput _ _ | .write _ _ _ | .setPending _ _ | .repend => True
  | .tryAllocate phase _ | .defer phase _ => phase.willPoll
  | .scan _ installed => installed = true
  | .checkPending u stmts => t = u ∨ t ∈ stmts
  | .poll stmts | .polling _ stmts | .dropping _ stmts | .release _ stmts => t ∈ stmts
  | .inactive | .collect _ | .store _ _ | .fault => False

/-- A slot may have been released whose deferred spawns phase B has not taken up yet. -/
def Executor.polls : Executor G I → Bool
  | .poll _ | .checkPending _ _ | .polling _ _ | .dropping _ _ | .release _ _ | .collect _
  | .store _ _ => true
  | _ => false

@[simp] theorem installed_draining (phase : Phase G) :
    (phase.installed : Executor G I).draining = phase.draining := by cases phase <;> rfl

@[simp] theorem busy_draining (phase : Phase G) :
    (phase.busy : Executor G I).draining = phase.draining := by cases phase <;> rfl

theorem installed_willPoll (phase : Phase G) (t : G.Task) :
    (phase.installed : Executor G I).willPoll t := by
  cases phase <;> trivial

theorem busy_willPoll {phase : Phase G} (h : phase.willPoll) (t : G.Task) :
    (phase.busy : Executor G I).willPoll t := by
  cases phase
  · trivial
  · exact h

/-! ## The invariant -/

/-- No work is forgotten. -/
structure Awake (s : State G I) : Prop where
  flags : ∀ t, (s.slots t).running = true → (s.slots t).pending = true →
    s.statics.pending = true ∨ 0 < s.waking ∨ s.executor.willPoll t
  ready : s.statics.ready.contents ≠ [] →
    s.statics.pending = true ∨ s.unpended = true ∨ s.executor.draining = true
  overflow : (∀ t ∈ s.overflow.contents, (s.slots t).running = true) ∨ s.executor.polls = true

theorem awake_init : Awake (machine .dispatcher G I hasCoreId).init where
  flags := fun _ => nofun
  ready := fun h => (h rfl).elim
  overflow := Or.inl fun _ => nofun

/-- The critical section of a spawn pends the interrupt with the entry it makes. -/
theorem awake_spawn (hi : Inv s r o q) (h : Awake s) {t : G.Task} {input : I} {caller : Nat}
    {pendOk : Bool}
    (hs : step .dispatcher hasCoreId s (.spawn t input caller pendOk) = some s') : Awake s' := by
  rw [step] at hs
  obtain ⟨a, b', ha⟩ : ∃ a b', spawn (Kind.dispatcher.spawnApi G hasCoreId t) t input caller pendOk
    s.statics = (a, b') := ⟨_, _, rfl⟩
  simp only [ha, Option.some.injEq] at hs
  subst hs
  have hle : ∀ u, r.count u ≤ (q u).length := fun u => by have := hi.tokens.count u; omega
  rcases spawn_cases _ t input caller pendOk hi.tokens.stores hle ha with
    ⟨rfl, rfl⟩ | ⟨_, _, _, ⟨rfl, hp⟩ | ⟨rfl, _, hp⟩⟩
  · exact ⟨h.flags, by simpa using h.ready, h.overflow⟩
  · have hp : b'.pending = true := by simpa [Kind.spawnApi, Group.spawnApi] using hp
    exact ⟨fun _ _ _ => Or.inl hp, fun _ => Or.inl hp, h.overflow⟩
  · exact ⟨by simpa only [hp] using h.flags, fun _ => Or.inr (Or.inl (by simp)), h.overflow⟩

/-! ## A step of the dispatcher -/

/-- Another place of the dispatcher, the rest as it is. -/
theorem Awake.move (h : Awake s) {e e' : Executor G I} (he : s.executor = e)
    (hw : ∀ t, (s.slots t).running = true → (s.slots t).pending = true →
      e.willPoll t → e'.willPoll t)
    (hd : e.draining = true → e'.draining = true) (hp : e.polls = true → e'.polls = true) :
    Awake { s with executor := e' } where
  flags := fun t hr hf => (h.flags t hr hf).imp_right (Or.imp_right fun hx => hw t hr hf (he ▸ hx))
  ready := fun hne => (h.ready hne).imp_right (Or.imp_right fun hx => hd (he ▸ hx))
  overflow := h.overflow.imp_right fun hx => hp (he ▸ hx)

/-- The same with a new slot for `t`; only the polls may take `running` back. -/
theorem Awake.touch (h : Awake s) {t : G.Task} {e e' : Executor G I}
    {slot : ExecSlot (Option I)} {dropped : List G.Task} (he : s.executor = e)
    (hself : slot.running = true → slot.pending = true → e'.willPoll t ∨
      ((s.slots t).running = true ∧ (s.slots t).pending = true ∧
        (e.willPoll t → e'.willPoll t)))
    (hw : ∀ u, u ≠ t → e.willPoll u → e'.willPoll u)
    (hd : e.draining = true → e'.draining = true) (hp : e.polls = true → e'.polls = true)
    (hrun : (s.slots t).running = true → slot.running = true ∨ e'.polls = true) :
    Awake { s.setSlot t slot with executor := e', dropped := dropped } where
  flags := by
    intro u hr hf
    by_cases hu : u = t
    · subst hu
      simp only [setSlot_self] at hr hf
      rcases hself hr hf with hx | ⟨hr, hf, hx⟩
      · exact Or.inr (Or.inr hx)
      · exact (h.flags u hr hf).imp_right (Or.imp_right fun hy => hx (he ▸ hy))
    · simp only [State.setSlot, Function.update_of_ne hu] at hr hf
      exact (h.flags u hr hf).imp_right (Or.imp_right fun hy => hw u hu (he ▸ hy))
  ready := fun hne => (h.ready hne).imp_right (Or.imp_right fun hx => hd (he ▸ hx))
  overflow := by
    by_cases hp' : e'.polls = true
    · exact Or.inr hp'
    · have ho := h.overflow.resolve_right fun ho => hp' (hp (he ▸ ho))
      refine Or.inl fun u hu => ?_
      by_cases hut : u = t
      · subst hut
        rw [setSlot_self]
        exact (hrun (ho u hu)).resolve_right hp'
      · simpa [State.setSlot, hut] using ho u hu

/-- The install function: in phase A every slot is still polled, and phase B repends. -/
theorem awake_install (hi : Inv s r o q) (h : Awake s) {ready : Bool} (phase : Phase G)
    (t : G.Task)
    (he : s.executor = .tryAllocate phase t ∨ s.executor = .dequeueInput phase t ∨
      (∃ f, s.executor = .write phase t f) ∨ s.executor = .setPending phase t ∨
      s.executor = .defer phase t)
    (hs : executorStep .dispatcher ready s = some s') : Awake s' := by
  have hx := hi.executor
  rw [executorStep] at hs
  rw [ExecutorInv] at hx
  rcases he with he | he | ⟨f, he⟩ | he | he
  all_goals rw [he] at hx
  · -- `try_allocate`
    simp only [he, Option.some.injEq] at hs
    subst hs
    cases hr : (s.slots t).running with
    | true =>
      rw [ExecSlot.tryAllocate_running hr]
      exact h.touch he (fun hr hf => Or.inr ⟨hr, hf, id⟩) (fun _ _ => id) id id Or.inl
    | false =>
      rw [ExecSlot.tryAllocate_free hr]
      exact h.touch he (fun _ _ => Or.inl trivial) (fun _ _ _ => trivial) id id fun _ => Or.inl rfl
  · -- the input is taken out and the future is made
    simp only [he, Option.some.injEq] at hs
    subst hs
    have hmove : Awake { s with executor := .write phase t (s.statics.inputs t).dequeueUnchecked.1 } :=
      h.move he (fun _ _ _ _ => trivial) id (by rintro ⟨⟩)
    exact ⟨hmove.flags, hmove.ready, hmove.overflow⟩
  · -- the write of the future
    simp only [he, Option.some.injEq] at hs
    subst hs
    exact h.touch he (fun _ _ => Or.inl trivial) (fun _ _ _ => trivial) id id Or.inl
  · -- `set_pending`
    simp only [he, Option.some.injEq] at hs
    subst hs
    exact h.touch he (fun _ _ => Or.inl (installed_willPoll phase t))
      (fun u _ _ => installed_willPoll phase u) (by rw [installed_draining]; exact id) (by rintro ⟨⟩) Or.inl
  · -- the deferral
    simp only [he, Option.some.injEq] at hs
    subst hs
    have hmove : Awake { s with executor := phase.busy } :=
      h.move he (fun u _ _ hw => busy_willPoll hw u) (by rw [busy_draining]; exact id) (by rintro ⟨⟩)
    have hlen := hi.tokens.length_le
    rw [he] at hlen
    simp only [Executor.hand, Option.toList_some, List.length_append, List.length_singleton] at hlen
    have hover := hi.tokens.overflow
    refine ⟨hmove.flags, hmove.ready, Or.inl fun u hu => ?_⟩
    have hno := h.overflow.resolve_right (by rw [he]; rintro ⟨⟩)
    have hroom : o.length + 1 < G.readyQueueSize := by rw [Group.readyQueueSize]; omega
    simp only [(hover.enqueueUnchecked hroom t).contents, List.mem_append,
      List.mem_singleton] at hu
    rcases hu with hu | rfl
    · exact hno u (hover.contents ▸ hu)
    · exact hx

/-- The polls: a flag set after its slot was looked at belongs to a waker that pends. -/
theorem awake_poll (hi : Inv s r o q) (h : Awake s) {ready : Bool} (t : G.Task)
    (stmts : List G.Task)
    (he : s.executor = .poll (t :: stmts) ∨ s.executor = .checkPending t stmts ∨
      s.executor = .polling t stmts ∨ s.executor = .dropping t stmts ∨
      s.executor = .release t stmts)
    (hs : executorStep .dispatcher ready s = some s') : Awake s' := by
  have hx := hi.executor
  rw [executorStep] at hs
  rw [ExecutorInv] at hx
  rcases he with he | he | he | he | he
  all_goals rw [he] at hx
  · -- `is_running`
    simp only [he, Option.some.injEq] at hs
    subst hs
    cases hr : (s.slots t).running with
    | true =>
      refine h.move he (fun u _ _ hw => ?_) (by simp [ExecSlot.isRunning, hr, Executor.draining])
        fun _ => by simp [ExecSlot.isRunning, hr, Executor.polls]
      simpa [ExecSlot.isRunning, hr, Executor.willPoll] using hw
    | false =>
      refine h.move he (fun u hru _ hw => ?_) (by simp [Executor.draining])
        fun _ => by simp [ExecSlot.isRunning, hr, Executor.polls]
      simp only [Executor.willPoll, List.mem_cons] at hw
      rcases hw with rfl | hw
      · rw [hr] at hru
        cases hru
      · simpa [ExecSlot.isRunning, hr, Executor.willPoll] using hw
  · -- `check_and_clear_pending`
    simp only [he, Option.some.injEq] at hs
    subst hs
    have hstmts : ∀ u, u ≠ t → (Executor.checkPending t stmts : Executor G I).willPoll u →
        u ∈ stmts := fun u hu hw => hw.resolve_left hu
    cases hf : (s.slots t).pending with
    | true =>
      rw [ExecSlot.checkAndClearPending_set hf]
      exact h.touch he (by rintro _ ⟨⟩) hstmts (by rintro ⟨⟩) (fun _ => rfl) Or.inl
    | false =>
      rw [ExecSlot.checkAndClearPending_clear hf]
      refine h.touch he (fun _ hp => ?_) hstmts (by rintro ⟨⟩) (fun _ => rfl) Or.inl
      rw [hf] at hp
      cases hp
  · -- the poll of the future itself
    obtain ⟨f, hf⟩ := Option.isSome_iff_exists.mp hx
    simp only [he, hf, Option.some.injEq] at hs
    subst hs
    cases ready
    all_goals exact h.move he (fun _ _ _ => id) (by rintro ⟨⟩) fun _ => rfl
  · -- `drop_in_place`
    simp only [he, Option.some.injEq] at hs
    subst hs
    exact h.touch he (fun hr hf => Or.inr ⟨hr, hf, id⟩) (fun _ _ => id) (by rintro ⟨⟩) (fun _ => rfl) Or.inl
  · -- the store to `running`
    simp only [he, Option.some.injEq] at hs
    subst hs
    exact h.touch he (by rintro ⟨⟩) (fun _ _ => id) (by rintro ⟨⟩) (fun _ => rfl) fun _ => Or.inr rfl

/-- Between the phases, and where phase B decides whether to run again. -/
theorem awake_control (hi : Inv s r o q) (h : Awake s) {ready : Bool}
    (he : s.executor = .drain ∨ s.executor = .poll [] ∨ (∃ d, s.executor = .collect d) ∨
      (∃ d t, s.executor = .store d t) ∨ (∃ d i, s.executor = .scan d i) ∨ s.executor = .repend)
    (hs : executorStep .dispatcher ready s = some s') : Awake s' := by
  have hready := hi.tokens.stores.ready
  have hover := hi.tokens.overflow
  rw [executorStep] at hs
  rcases he with he | he | ⟨d, he⟩ | ⟨d, t, he⟩ | ⟨d, i, he⟩ | he
  · -- the ready queue
    cases r with
    | nil =>
      simp only [he, hready.dequeue_nil, Option.some.injEq] at hs
      subst hs
      -- every task is about to be polled, whatever its flag
      exact ⟨fun u _ _ => Or.inr (Or.inr (List.mem_finRange u)),
        fun hne => (hne hready.contents).elim, Or.inr rfl⟩
    | cons t r =>
      simp only [he, hready.dequeue_cons, Option.some.injEq] at hs
      subst hs
      have ho := h.overflow.resolve_right (by rw [he]; rintro ⟨⟩)
      exact ⟨fun _ _ _ => Or.inr (Or.inr trivial), fun _ => Or.inr (Or.inr rfl), Or.inl ho⟩
  · simp only [he, Option.some.injEq] at hs
    subst hs
    exact h.move he (fun _ _ _ hw => by cases hw) (by rintro ⟨⟩) fun _ => rfl
  · -- the overflow queue
    cases o with
    | nil =>
      simp only [he, hover.dequeue_nil, Option.some.injEq] at hs
      subst hs
      obtain ⟨hflags, hne, -⟩ := h
      rw [he] at hflags hne
      refine ⟨fun u hr hf => ?_, hne, Or.inl fun u hu => ?_⟩
      · exact (hflags u hr hf).imp_right (Or.imp_right False.elim)
      · rw [hover.contents] at hu
        cases hu
    | cons t o =>
      simp only [he, hover.dequeue_cons, Option.some.injEq] at hs
      subst hs
      have hmove : Awake { s with executor := .store d t } :=
        h.move he (fun _ _ _ => id) (by rintro ⟨⟩) fun _ => rfl
      exact ⟨hmove.flags, hmove.ready, Or.inr rfl⟩
  · have hlen := hi.tokens.length_le
    rw [he] at hlen
    simp only [he, Option.some.injEq] at hs
    subst hs
    have hroom : d.length < G.sumCapacity := by
      simp only [Executor.deferred, Executor.hand, Option.toList_some, List.length_append,
        List.length_singleton] at hlen
      omega
    simp only [hroom, if_true]
    exact h.move he (fun _ _ _ => id) (by rintro ⟨⟩) fun _ => rfl
  · cases d with
    | nil =>
      simp only [he] at hs
      cases hs
      cases i
      · exact h.move he (by rintro _ _ _ ⟨⟩) (by rintro ⟨⟩) (by rintro ⟨⟩)
      · exact h.move he (fun _ _ _ _ => trivial) (by rintro ⟨⟩) (by rintro ⟨⟩)
    | cons t d =>
      simp only [he, Option.some.injEq] at hs
      subst hs
      exact h.move he (fun _ _ _ => id) (by rintro ⟨⟩) (by rintro ⟨⟩)
  · simp only [he, Option.some.injEq] at hs
    subst hs
    -- the interrupt is pended, so the dispatcher will look at everything again
    have ho := h.overflow.resolve_right (by rw [he]; rintro ⟨⟩)
    exact ⟨fun _ _ _ => Or.inl rfl, fun _ => Or.inl rfl, Or.inl ho⟩

/-- **A step of the dispatcher forgets no work.** -/
theorem awake_executorStep (hi : Inv s r o q) (h : Awake s) {ready : Bool}
    (hs : executorStep .dispatcher ready s = some s') : Awake s' := by
  cases he : s.executor with
  | inactive | fault => rw [executorStep, he] at hs; cases hs
  | tryAllocate phase t | dequeueInput phase t | write phase t f | setPending phase t
  | defer phase t => exact awake_install hi h phase t (by simp [he]) hs
  | checkPending t stmts | polling t stmts | dropping t stmts | release t stmts =>
    exact awake_poll hi h t stmts (by simp [he]) hs
  | poll stmts =>
    cases stmts with
    | nil => exact awake_control hi h (by simp [he]) hs
    | cons t stmts => exact awake_poll hi h t stmts (Or.inl he) hs
  | drain | collect d | store d t | scan d i | repend => exact awake_control hi h (by simp [he]) hs

theorem awake_step (hi : Inv s r o q) (h : Awake s) {a : Action G I}
    (hs : step .dispatcher hasCoreId s a = some s') : Awake s' := by
  cases a with
  | systemInitialized => cases hs; exact ⟨h.flags, h.ready, h.overflow⟩
  | pend => cases hs; exact ⟨fun _ _ _ => Or.inl rfl, fun _ => Or.inl rfl, h.overflow⟩
  | wakePend =>
    simp only [step] at hs
    split at hs <;> cases hs
    exact ⟨fun _ _ _ => Or.inl rfl, fun _ => Or.inl rfl, h.overflow⟩
  | enter =>
    simp only [step] at hs
    split at hs
    next he =>
      split at hs <;> cases hs
      have ho := h.overflow.resolve_right (by rw [he]; rintro ⟨⟩)
      exact ⟨fun _ _ _ => Or.inr (Or.inr trivial), fun _ => Or.inr (Or.inr rfl), Or.inl ho⟩
    · cases hs
  | wake t =>
    cases hs
    have hrun : ∀ u, ((s.setSlot t (s.slots t).setPending).slots u).running =
        (s.slots u).running := by
      intro u
      by_cases hu : u = t
      · subst hu
        simp [ExecSlot.setPending]
      · simp [State.setSlot, hu]
    exact ⟨fun _ _ _ => Or.inr (Or.inl (Nat.succ_pos _)), h.ready,
      h.overflow.imp_left fun ho u hu => (hrun u).trans (ho u hu)⟩
  | spawn t input caller pendOk => exact awake_spawn hi h hs
  | run ready => exact awake_executorStep hi h hs

theorem awake_reachable (h : (machine .dispatcher G I hasCoreId).Reachable s) : Awake s :=
  h.invariant awake_init fun _ _ _ hr ha hs =>
    let ⟨_, _, _, hi⟩ := inv_reachable hr
    awake_step hi ha hs

/-! ## Wakes on one core -/

theorem executorStep_unpended {kind : Kind} {ready : Bool}
    (hs : executorStep kind ready s = some s') : s'.unpended = s.unpended := by
  unfold executorStep at hs
  split at hs
  all_goals try split at hs
  all_goals try split at hs
  all_goals cases hs
  all_goals rfl

/-- Without cross-core spawns no pend fails. -/
theorem unpended_false (hone : G.OneCore) (h : (machine .dispatcher G I hasCoreId).Reachable s) :
    s.unpended = false := by
  refine h.invariant (P := fun s => s.unpended = false) rfl fun s a s' hr hu hs => ?_
  obtain ⟨r, o, q, hi⟩ := inv_reachable hr
  cases a with
  | systemInitialized | pend | wake t => cases hs; exact hu
  | wakePend | enter =>
    simp only [machine, step] at hs
    repeat' split at hs
    all_goals cases hs
    all_goals first | exact hu | rfl
  | run ready =>
    have hs : executorStep .dispatcher ready s = some s' := hs
    exact (executorStep_unpended hs).trans hu
  | spawn t input caller pendOk =>
    simp only [machine, step] at hs
    obtain ⟨a, b', ha⟩ : ∃ a b', spawn (Kind.dispatcher.spawnApi G hasCoreId t) t input caller
      pendOk s.statics = (a, b') := ⟨_, _, rfl⟩
    simp only [ha, Option.some.injEq] at hs
    subst hs
    have hle : ∀ u, r.count u ≤ (q u).length := fun u => by have := hi.tokens.count u; omega
    rcases spawn_cases _ t input caller pendOk hi.tokens.stores hle ha with
      ⟨rfl, -⟩ | ⟨-, -, -, ⟨rfl, -⟩ | ⟨-, hp, -⟩⟩
    · simpa using hu
    · simpa using hu
    · rw [Kind.spawnApi, hone.pendStmt] at hp
      cases hp

/--
**No spawn and no wake-up is lost.** In every state of every run of a group on one core in which
the dispatcher is not active and no waker is between its two steps, a ready entry and a flagged
slot each mean that the interrupt is pending, and a deferred task has a running slot.
-/
theorem no_wakeup_lost (hone : G.OneCore) (h : (machine .dispatcher G I hasCoreId).Reachable s)
    (hinactive : s.executor = .inactive) (hwaking : s.waking = 0) :
    (s.statics.ready.isEmpty = false → s.statics.pending = true) ∧
    (∀ t, (s.slots t).running = true → (s.slots t).pending = true → s.statics.pending = true) ∧
    (∀ t ∈ s.overflow.contents, (s.slots t).running = true) := by
  obtain ⟨r, o, q, hi⟩ := inv_reachable h
  have ha := awake_reachable h
  have hready := hi.tokens.stores.ready
  refine ⟨fun hne => ?_, fun t hr hf => ?_, ?_⟩
  · have hcontents : s.statics.ready.contents ≠ [] := by
      rw [hready.contents]
      intro hnil
      rw [hready.isEmpty_iff.mpr hnil] at hne
      cases hne
    rcases ha.ready hcontents with hp | hp | hp
    · exact hp
    · rw [unpended_false hone h] at hp
      cases hp
    · rw [hinactive] at hp
      cases hp
  · rcases ha.flags t hr hf with hp | hp | hp
    · exact hp
    · omega
    · rw [hinactive] at hp
      exact hp.elim
  · exact ha.overflow.resolve_right (by rw [hinactive]; nofun)

/-- A waker interrupts the poll of its own future; the second spawn of the task stays deferred. -/
def wokenWhilePolled : List (Action twoTasks Nat) :=
  [.systemInitialized, .spawn blink 10 0 true, .spawn blink 11 0 true, .enter] ++
    List.replicate 12 (.run false) ++ [.wake blink, .wakePend] ++ List.replicate 9 (.run false)

theorem no_wakeup_lost_run :
    ∃ s, (machine .dispatcher twoTasks Nat true).exec
        (machine .dispatcher twoTasks Nat true).init wokenWhilePolled = some s ∧
      s.executor = .inactive ∧ (s.slots blink).running = true ∧ (s.slots blink).pending = true ∧
      s.overflow.contents = [blink] ∧ s.statics.pending = true := by
  refine ⟨_, rfl, rfl, rfl, rfl, rfl, ?_⟩
  have h : (machine .dispatcher twoTasks Nat true).Reachable _ :=
    Machine.reachable_iff_exec.mpr ⟨wokenWhilePolled, rfl⟩
  exact (no_wakeup_lost (by unfold Group.OneCore; decide) h rfl rfl).2.1 blink rfl rfl

end Rticx.AsyncPass.Dispatch
