import Rticx.AsyncRt.Executor
import Rticx.Lib.Fifo
import Rticx.Lib.Machine
import Rticx.SwPass.Spawn

/-!
# The async dispatcher of a priority group

`generate_dispatcher_tasks` and `generate_idle_executor` of
`rticx-async-pass/src/codegen/mod.rs`. Both run the same three parts, one as a hardware task that
is entered again for every pend, the other in the endless loop of the idle task:

* phase A takes tasks out of the ready queue and installs a future for each, or puts the task into
  the overflow queue if its slot is busy;
* every slot is polled;
* phase B copies the overflow queue into the array `deferred` and tries those tasks once more.

Spawns and wakers preempt the executor between any two of its steps. What a future does when it is
polled is up to the environment: it may spawn and wake like everybody else, and be ready or not.
-/

namespace Rticx.AsyncPass

open Lib Spsc SwPass AsyncRt

/-- The two executors. -/
inductive Kind where
  | dispatcher
  | idle
  deriving DecidableEq

/-- `AsyncTask::generate_spawn_api` and `AsyncTask::generate_spawn_api_prio_0`. -/
def Kind.spawnApi (kind : Kind) (G : Group) (hasCoreId : Bool) (t : G.Task) : SpawnApiParams :=
  match kind with
  | .dispatcher => G.spawnApi hasCoreId t
  | .idle => { pendStmt := none, coreCheck := if hasCoreId then some G.core else none }

namespace Dispatch

variable {G : Group} {I : Type} {kind : Kind} {hasCoreId : Bool}

/-! ## The executor -/

/-- Who called the install function: phase A, or phase B with the tasks left in `deferred`. -/
inductive Phase (G : Group) where
  | a
  | b (rest : List G.Task) (installed : Bool)

/-- Where the executor is. A future is identified with the input it was made from. -/
inductive Executor (G : Group) (I : Type) where
  | inactive
  /-- `while let Some(task) = ready_consumer.dequeue()` -/
  | drain
  /-- `if exec.try_allocate()` -/
  | tryAllocate (phase : Phase G) (t : G.Task)
  /-- `let input = input_consumer.dequeue_unchecked()`, and the future made from it -/
  | dequeueInput (phase : Phase G) (t : G.Task)
  /-- the write of `exec.spawn(future)` -/
  | write (phase : Phase G) (t : G.Task) (future : Option I)
  /-- the `set_pending` of `exec.spawn(future)` -/
  | setPending (phase : Phase G) (t : G.Task)
  /-- `ovf_producer.enqueue_unchecked(task)` -/
  | defer (phase : Phase G) (t : G.Task)
  /-- the poll statements left; `if !self.is_running()` of the first of them -/
  | poll (stmts : List G.Task)
  /-- `if !self.check_and_clear_pending()` -/
  | checkPending (t : G.Task) (stmts : List G.Task)
  /-- inside `future.poll` -/
  | polling (t : G.Task) (stmts : List G.Task)
  /-- `drop_in_place` after `Poll::Ready(())` -/
  | dropping (t : G.Task) (stmts : List G.Task)
  /-- `self.running.store(false)` -/
  | release (t : G.Task) (stmts : List G.Task)
  /-- `while let Some(task) = ovf_consumer.dequeue()` -/
  | collect (deferred : List G.Task)
  /-- `deferred[deferred_len] = Some(task)` -/
  | store (deferred : List G.Task) (t : G.Task)
  /-- `for i in 0..deferred_len`, with what is left of the array -/
  | scan (rest : List G.Task) (installed : Bool)
  /-- `if installed { .. }` has been passed: the pend -/
  | repend
  /-- an index out of bounds, or a value that is none -/
  | fault

/-- What is left of the array while a task of it is installed. -/
def Phase.rest : Phase G → List G.Task
  | .a => []
  | .b rest _ => rest

/-- What is left of the local array `deferred`. -/
def Executor.deferred : Executor G I → List G.Task
  | .tryAllocate phase _ | .dequeueInput phase _ | .write phase _ _ | .setPending phase _
  | .defer phase _ => phase.rest
  | .collect deferred | .store deferred _ | .scan deferred _ => deferred
  | _ => []

/-- The task taken out of a queue or the array whose input is not dequeued yet. -/
def Executor.hand : Executor G I → Option G.Task
  | .tryAllocate _ t | .dequeueInput _ t | .defer _ t | .store _ t => some t
  | _ => none

/-- The task whose future was made and is not in its slot yet. -/
def Executor.made : Executor G I → Option G.Task
  | .write _ t _ => some t
  | _ => none

/-- The task whose slot is `running` with no future in it. -/
def Executor.allocated : Executor G I → Option G.Task
  | .dequeueInput _ t | .write _ t _ | .release t _ => some t
  | _ => none

/-- Where the executor goes on after it installed a future. -/
def Phase.installed : Phase G → Executor G I
  | .a => .drain
  | .b rest _ => .scan rest true

/-- Where the executor goes on after it deferred a task. -/
def Phase.busy : Phase G → Executor G I
  | .a => .drain
  | .b rest installed => .scan rest installed

/--
The statics, the executor, the number of waker calls between `set_pending` and their pend, and the
history: the inputs accepted by spawns, those futures were made from, the tasks whose future was
dropped, and whether a cross-core pend failed since the dispatcher was last entered.
-/
structure State (G : Group) (I : Type) where
  statics : Statics G I
  overflow : Queue G.Task G.readyQueueSize
  slots : G.Task → ExecSlot (Option I)
  executor : Executor G I
  waking : Nat
  accepted : List (G.Task × I)
  created : List (G.Task × Option I)
  dropped : List G.Task
  unpended : Bool

/-- What may happen next. -/
inductive Action (G : Group) (I : Type) where
  /-- `__rticx_async_system_initialized = true` -/
  | systemInitialized
  /-- the critical section of a spawn -/
  | spawn (t : G.Task) (input : I) (caller : Nat) (pendOk : Bool)
  /-- somebody pends the interrupt by hand -/
  | pend
  /-- the pending interrupt is taken, or idle starts -/
  | enter
  /-- the `set_pending` of a waker -/
  | wake (t : G.Task)
  /-- the pend that follows it -/
  | wakePend
  /-- a step of the executor; `ready` is the answer of a future that is being polled -/
  | run (ready : Bool)

/-- Change one slot. -/
def State.setSlot (s : State G I) (t : G.Task) (slot : ExecSlot (Option I)) : State G I :=
  { s with slots := Function.update s.slots t slot }

/-- One step of the executor. -/
def executorStep (kind : Kind) (ready : Bool) (s : State G I) : Option (State G I) :=
  match s.executor with
  | .inactive | .fault => none
  | .drain =>
    match s.statics.ready.dequeue with
    | none => some { s with executor := .poll (List.finRange _) }
    | some (some t, q) =>
      some { s with executor := .tryAllocate .a t, statics := { s.statics with ready := q } }
    | some (none, q) =>
      some { s with executor := .fault, statics := { s.statics with ready := q } }
  | .tryAllocate phase t =>
    let (ok, slot) := (s.slots t).tryAllocate
    some { s.setSlot t slot with
      executor := if ok then .dequeueInput phase t else .defer phase t }
  | .dequeueInput phase t =>
    let (input, q) := (s.statics.inputs t).dequeueUnchecked
    some { s with
      executor := .write phase t input
      statics := { s.statics with inputs := Function.update s.statics.inputs t q }
      created := s.created ++ [(t, input)] }
  | .write phase t future =>
    some { s.setSlot t ((s.slots t).write future) with executor := .setPending phase t }
  | .setPending phase t =>
    some { s.setSlot t (s.slots t).setPending with executor := phase.installed }
  | .defer phase t =>
    some { s with executor := phase.busy, overflow := s.overflow.enqueueUnchecked t }
  | .poll [] => some { s with executor := .collect [] }
  | .poll (t :: stmts) =>
    some { s with
      executor := if (s.slots t).isRunning then .checkPending t stmts else .poll stmts }
  | .checkPending t stmts =>
    let (ok, slot) := (s.slots t).checkAndClearPending
    some { s.setSlot t slot with executor := if ok then .polling t stmts else .poll stmts }
  | .polling t stmts =>
    match (s.slots t).future with
    | none => some { s with executor := .fault }
    | some _ => some { s with executor := if ready then .dropping t stmts else .poll stmts }
  | .dropping t stmts =>
    some { s.setSlot t (s.slots t).dropInPlace with
      executor := .release t stmts, dropped := s.dropped ++ [t] }
  | .release t stmts =>
    some { s.setSlot t (s.slots t).release with executor := .poll stmts }
  | .collect deferred =>
    match s.overflow.dequeue with
    | none => some { s with executor := .scan deferred false }
    | some (some t, q) => some { s with executor := .store deferred t, overflow := q }
    | some (none, q) => some { s with executor := .fault, overflow := q }
  | .store deferred t =>
    some { s with
      executor :=
        if deferred.length < G.sumCapacity then .collect (deferred ++ [t]) else .fault }
  | .scan (t :: rest) installed =>
    some { s with executor := .tryAllocate (.b rest installed) t }
  | .scan [] installed =>
    match kind with
    | .dispatcher => some { s with executor := if installed then .repend else .inactive }
    | .idle => some { s with executor := .drain }
  | .repend =>
    some { s with executor := .inactive, statics := { s.statics with pending := true } }

/-- The priority group in the system. -/
def step (kind : Kind) (hasCoreId : Bool) (s : State G I) : Action G I → Option (State G I)
  | .systemInitialized => some { s with statics := { s.statics with systemInitialized := true } }
  | .spawn t input caller pendOk =>
    let (r, statics) := spawn (kind.spawnApi G hasCoreId t) t input caller pendOk s.statics
    some { s with
      statics := statics
      accepted := if rejects r then s.accepted else s.accepted ++ [(t, input)]
      unpended := s.unpended || (r matches .error none) }
  | .pend => some { s with statics := { s.statics with pending := true } }
  | .enter =>
    match s.executor with
    | .inactive =>
      if s.statics.pending || kind == .idle then
        some { s with
          executor := .drain, statics := { s.statics with pending := false }, unpended := false }
      else none
    | _ => none
  | .wake t =>
    some { s.setSlot t (s.slots t).setPending with
      waking := if kind = .dispatcher then s.waking + 1 else s.waking }
  | .wakePend =>
    match s.waking with
    | 0 => none
    | n + 1 => some { s with waking := n, statics := { s.statics with pending := true } }
  | .run ready => executorStep kind ready s

/-- The group from reset. -/
def machine (kind : Kind) (G : Group) (I : Type) (hasCoreId : Bool) :
    Machine (State G I) (Action G I) where
  init :=
    { statics := Statics.new, overflow := Queue.new, slots := fun _ => ExecSlot.new
      executor := .inactive, waking := 0
      accepted := [], created := [], dropped := [], unpended := false }
  step := step kind hasCoreId

/-! ## One slot -/

/--
`running` covers the life of the future and the moments around it, and what was created is what
was dropped, what is in the slot and what was just made.
-/
structure SlotInv (slot : ExecSlot (Option I)) (allocated made : Bool) (created dropped : Nat) :
    Prop where
  running : slot.running = (slot.future.isSome || allocated)
  free : allocated = true → slot.future = none
  live : created = dropped + slot.future.isSome.toNat + made.toNat

namespace SlotInv

variable {slot : ExecSlot (Option I)} {allocated made : Bool} {created dropped : Nat}

theorem new : SlotInv (ExecSlot.new : ExecSlot (Option I)) false false 0 0 := ⟨rfl, nofun, rfl⟩

theorem tryAllocate (h : SlotInv slot false false created dropped) :
    SlotInv slot.tryAllocate.2 slot.tryAllocate.1 false created dropped := by
  obtain ⟨future, running, pending⟩ := slot
  obtain ⟨hr, -, hl⟩ := h
  cases future <;> cases hr
  · exact ⟨rfl, fun _ => rfl, hl⟩
  · exact ⟨rfl, nofun, hl⟩

theorem make (h : SlotInv slot true false created dropped) :
    SlotInv slot true true (created + 1) dropped := by
  obtain ⟨hr, hf, hl⟩ := h
  refine ⟨hr, hf, ?_⟩
  rw [hl]
  rfl

theorem write (h : SlotInv slot true true created dropped) (f : Option I) :
    SlotInv (slot.write f) false false created dropped := by
  obtain ⟨hr, hf, hl⟩ := h
  refine ⟨by simpa [hf, ExecSlot.write] using hr, nofun, ?_⟩
  rw [hl, hf rfl]
  rfl

theorem setPending (h : SlotInv slot allocated made created dropped) :
    SlotInv slot.setPending allocated made created dropped := ⟨h.running, h.free, h.live⟩

theorem checkAndClearPending (h : SlotInv slot allocated made created dropped) :
    SlotInv slot.checkAndClearPending.2 allocated made created dropped := by
  rw [ExecSlot.checkAndClearPending]
  split
  · exact ⟨h.running, h.free, h.live⟩
  · exact h

theorem drop (h : SlotInv slot false false created dropped) (hf : slot.future.isSome = true) :
    SlotInv slot.dropInPlace true false created (dropped + 1) := by
  obtain ⟨hr, -, hl⟩ := h
  refine ⟨by simpa [hf, ExecSlot.dropInPlace] using hr, fun _ => rfl, ?_⟩
  rw [hl, hf]
  rfl

theorem release (h : SlotInv slot true false created dropped) :
    SlotInv slot.release false false created dropped := by
  obtain ⟨-, hf, hl⟩ := h
  exact ⟨by simp [ExecSlot.release, hf], nofun, hl⟩

end SlotInv

/-! ## The invariant -/

/--
The tokens: whatever queue, array or hand they are in, there are as many of a task as the task has
inputs.
-/
structure Tokens (s : State G I) (r o : List G.Task) (q : G.Task → List I) : Prop where
  stores : s.statics.Stores r q
  overflow : s.overflow.Holds o
  count : ∀ t, r.count t + o.count t + s.executor.deferred.count t +
    (if s.executor.hand = some t then 1 else 0) = (q t).length

/-- What the executor may rely on between two of its steps. -/
def ExecutorInv (s : State G I) : Prop :=
  match s.executor with
  | .defer _ t => (s.slots t).running = true
  | .checkPending t _ | .polling t _ | .dropping t _ => (s.slots t).future.isSome = true
  | .fault => False
  | _ => True

/-- The invariant of the group. -/
structure Inv (s : State G I) (r o : List G.Task) (q : G.Task → List I) : Prop where
  tokens : Tokens s r o q
  account : ∀ t, Fifo.Account ((inputsOf s.accepted t).map some) (inputsOf s.created t)
    ((q t).map some)
  slots : ∀ t, SlotInv (s.slots t) (s.executor.allocated == some t) (s.executor.made == some t)
    (inputsOf s.created t).length (s.dropped.count t)
  executor : ExecutorInv s

theorem inv_init : Inv (machine kind G I hasCoreId).init [] [] fun _ => [] where
  tokens := ⟨Statics.new_stores, Queue.new_holds (Nat.succ_pos _), fun _ => rfl⟩
  account := fun _ => Fifo.Account.nil
  slots := fun _ => SlotInv.new
  executor := trivial

variable {s s' : State G I} {r o : List G.Task} {q : G.Task → List I}

/-- A group's tokens never exceed its summed capacity. -/
theorem Tokens.length_le (h : Tokens s r o q) :
    (r ++ o ++ s.executor.deferred ++ s.executor.hand.toList).length ≤ G.sumCapacity := by
  rw [G.sumCapacity_eq]
  refine Lib.Tokens.length_le_sum fun t => le_trans (le_of_eq ?_) (h.stores.inputs_le t)
  rw [← h.count t]
  simp only [List.count_append]
  cases s.executor.hand <;> simp [List.count_singleton]

/-- A critical section of a spawn. -/
theorem inv_spawn (h : Inv s r o q) {t : G.Task} {input : I} {caller : Nat} {pendOk : Bool}
    (hs : step kind hasCoreId s (.spawn t input caller pendOk) = some s') :
    ∃ r' q', Inv s' r' o q' := by
  rw [step] at hs
  obtain ⟨a, b', ha⟩ : ∃ a b', spawn (kind.spawnApi G hasCoreId t) t input caller pendOk s.statics =
    (a, b') := ⟨_, _, rfl⟩
  simp only [ha, Option.some.injEq] at hs
  subst hs
  have hle : ∀ u, r.count u ≤ (q u).length := fun u => by have := h.tokens.count u; omega
  rcases spawn_cases _ t input caller pendOk h.tokens.stores hle ha with
    ⟨rfl, rfl⟩ | ⟨hrej, _, hspawned, _⟩
  · exact ⟨r, q, ⟨h.tokens.stores, h.tokens.overflow, h.tokens.count⟩,
      by simpa [rejects] using h.account, h.slots, h.executor⟩
  · refine ⟨r ++ [t], _, ⟨hspawned.stores, h.tokens.overflow, fun u => ?_⟩, fun u => ?_, h.slots,
      h.executor⟩
    · have := h.tokens.count u
      by_cases hu : u = t
      · subst hu
        simp only [List.count_append, List.count_singleton_self, Function.update_self,
          List.length_append, List.length_singleton]
        omega
      · simpa [List.count_append, List.count_singleton, hu, Ne.symm hu] using this
    · simp only [hrej, Bool.false_eq_true, if_false, inputsOf_append]
      by_cases hu : u = t
      · subst hu
        simpa using (h.account u).push (some input)
      · simpa [hu] using h.account u

/-! ## A step of the executor -/

section Phase

variable (phase : Phase G)

@[simp] theorem installed_deferred :
    (phase.installed : Executor G I).deferred = phase.rest := by cases phase <;> rfl

@[simp] theorem installed_hand : (phase.installed : Executor G I).hand = none := by
  cases phase <;> rfl

@[simp] theorem installed_allocated : (phase.installed : Executor G I).allocated = none := by
  cases phase <;> rfl

@[simp] theorem installed_made : (phase.installed : Executor G I).made = none := by
  cases phase <;> rfl

@[simp] theorem busy_deferred : (phase.busy : Executor G I).deferred = phase.rest := by
  cases phase <;> rfl

@[simp] theorem busy_hand : (phase.busy : Executor G I).hand = none := by cases phase <;> rfl

@[simp] theorem busy_allocated : (phase.busy : Executor G I).allocated = none := by
  cases phase <;> rfl

@[simp] theorem busy_made : (phase.busy : Executor G I).made = none := by cases phase <;> rfl

end Phase

/-- Back from the install function, the executor relies on nothing. -/
theorem executorInv_installed {phase : Phase G} (he : s.executor = phase.installed) :
    ExecutorInv s := by
  unfold ExecutorInv
  rw [he]
  cases phase <;> trivial

theorem executorInv_busy {phase : Phase G} (he : s.executor = phase.busy) : ExecutorInv s := by
  unfold ExecutorInv
  rw [he]
  cases phase <;> trivial

@[simp] theorem setSlot_dropped (s : State G I) (t : G.Task) (slot : ExecSlot (Option I)) :
    (s.setSlot t slot).dropped = s.dropped := rfl

@[simp] theorem setSlot_executor (s : State G I) (t : G.Task) (slot : ExecSlot (Option I)) :
    (s.setSlot t slot).executor = s.executor := rfl

@[simp] theorem setSlot_self (s : State G I) (t : G.Task) (slot : ExecSlot (Option I)) :
    (s.setSlot t slot).slots t = slot := Function.update_self ..

/-- The executor moves on with the same tokens and touches no slot. -/
theorem Inv.move (h : Inv s r o q) {e e' : Executor G I} (he : s.executor = e)
    (hd : e'.deferred = e.deferred) (hh : e'.hand = e.hand) (ha : e'.allocated = e.allocated)
    (hm : e'.made = e.made) (hx : ExecutorInv { s with executor := e' }) :
    Inv { s with executor := e' } r o q where
  tokens := ⟨h.tokens.stores, h.tokens.overflow, by simpa [he, hd, hh] using h.tokens.count⟩
  account := h.account
  slots := by simpa [he, ha, hm] using h.slots
  executor := hx

/-- The executor moves on with the same tokens and works on the slot of `t`. -/
theorem Inv.touch (h : Inv s r o q) {t : G.Task} {e e' : Executor G I}
    {slot : ExecSlot (Option I)} {dropped : List G.Task} (he : s.executor = e)
    (hd : e'.deferred = e.deferred) (hh : e'.hand = e.hand)
    (hother : ∀ u, u ≠ t → (e'.allocated == some u) = (e.allocated == some u) ∧
      (e'.made == some u) = (e.made == some u) ∧ dropped.count u = s.dropped.count u)
    (hself : SlotInv slot (e'.allocated == some t) (e'.made == some t)
      (inputsOf s.created t).length (dropped.count t))
    (hx : ExecutorInv { s.setSlot t slot with executor := e', dropped := dropped }) :
    Inv { s.setSlot t slot with executor := e', dropped := dropped } r o q where
  tokens := ⟨h.tokens.stores, h.tokens.overflow, by simpa [he, hd, hh] using h.tokens.count⟩
  account := h.account
  slots := by
    intro u
    by_cases hu : u = t
    · subst hu
      simpa [State.setSlot] using hself
    · obtain ⟨ha, hm, hc⟩ := hother u hu
      simpa [State.setSlot, hu, he, ha, hm, hc] using h.slots u
  executor := hx

/-- The slot of the task the executor works on. -/
theorem Inv.slot (h : Inv s r o q) {e : Executor G I} (he : s.executor = e) (t : G.Task) :
    SlotInv (s.slots t) (e.allocated == some t) (e.made == some t)
      (inputsOf s.created t).length (s.dropped.count t) := he ▸ h.slots t

/-- A running slot that is not just allocated holds a future. -/
theorem SlotInv.future_of_running {slot : ExecSlot (Option I)} {made : Bool}
    {created dropped : Nat} (h : SlotInv slot false made created dropped)
    (hr : slot.running = true) : slot.future.isSome = true := by
  simpa [hr] using h.running

/-- `try_allocate` takes the slot, or finds it running. -/
theorem inv_tryAllocate (h : Inv s r o q) {ready : Bool} {phase : Phase G} {t : G.Task}
    (he : s.executor = .tryAllocate phase t) (hs : executorStep kind ready s = some s') :
    Inv s' r o q := by
  have ht := h.slot he t
  rw [executorStep] at hs
  simp only [he, Option.some.injEq] at hs
  subst hs
  simp only [Executor.allocated, Executor.made, Option.none_beq_some] at ht
  cases hok : (s.slots t).tryAllocate.1 with
  | true =>
    refine h.touch he rfl rfl ?_ ?_ trivial
    · intro u hu
      simp [Executor.allocated, Executor.made, Ne.symm hu]
    · simpa [Executor.allocated, Executor.made, hok] using ht.tryAllocate
  | false =>
    refine h.touch he rfl rfl ?_ ?_ ?_
    · intro u hu
      simp [Executor.allocated, Executor.made]
    · simpa [Executor.allocated, Executor.made, hok] using ht.tryAllocate
    · show ((s.setSlot t (s.slots t).tryAllocate.2).slots t).running = true
      rw [setSlot_self]
      exact ExecSlot.running_of_tryAllocate hok

/-- `install_fn` takes the input out of its queue and makes the future. -/
theorem inv_dequeueInput (h : Inv s r o q) {ready : Bool} {phase : Phase G} {t : G.Task}
    (he : s.executor = .dequeueInput phase t) (hs : executorStep kind ready s = some s') :
    ∃ q', Inv s' r o q' := by
  have hcount := h.tokens.count
  have ht := h.slot he t
  rw [executorStep] at hs
  rw [he] at hcount
  simp only [he, Option.some.injEq] at hs
  subst hs
  have hne : q t ≠ [] := by
    have := hcount t
    intro hnil
    simp [Executor.hand, hnil] at this
  obtain ⟨x, l, hxl⟩ := List.exists_cons_of_ne_nil hne
  have hin : (s.statics.inputs t).Holds (x :: l) := hxl ▸ h.tokens.stores.inputs t
  -- the token of the hand is spent on the input; nothing else is counted
  refine ⟨Function.update q t l, ⟨⟨h.tokens.stores.ready, fun u => ?_⟩,
    h.tokens.overflow, fun u => ?_⟩, fun u => ?_, fun u => ?_, trivial⟩
  all_goals by_cases hu : u = t
  · subst hu
    simpa using hin.dequeueUnchecked.2
  · simpa [hu] using h.tokens.stores.inputs u
  · subst hu
    have := hcount u
    simpa [Executor.deferred, Executor.hand, hxl] using this
  · have := hcount u
    simpa [Executor.deferred, Executor.hand, hu, Ne.symm hu] using this
  · subst hu
    have := h.account u
    rw [hxl] at this
    simpa [inputsOf_append, hin.dequeueUnchecked.1] using this.pop
  · simpa [inputsOf_append, hu] using h.account u
  · subst hu
    simp only [Executor.allocated, Executor.made, beq_self_eq_true,
      Option.none_beq_some] at ht
    simpa [Executor.allocated, Executor.made, inputsOf_append] using ht.make
  · have htu : (t == u) = false := beq_eq_false_iff_ne.mpr (Ne.symm hu)
    simpa [he, Executor.allocated, Executor.made, inputsOf_append, hu, htu] using h.slots u

/-- A task whose slot is taken goes into the overflow queue. -/
theorem inv_defer (h : Inv s r o q) {ready : Bool} {phase : Phase G} {t : G.Task}
    (he : s.executor = .defer phase t) (hs : executorStep kind ready s = some s') :
    Inv s' r (o ++ [t]) q := by
  have hcount := h.tokens.count
  have hlen := h.tokens.length_le
  rw [executorStep] at hs
  rw [he] at hcount hlen
  simp only [he, Option.some.injEq] at hs
  subst hs
  -- the task in hand is none of those in the queues, so there is room for it
  have hroom : o.length + 1 < G.readyQueueSize := by
    simp only [Executor.hand, Option.toList_some, List.length_append, List.length_singleton] at hlen
    rw [Group.readyQueueSize]
    omega
  refine ⟨⟨h.tokens.stores, h.tokens.overflow.enqueueUnchecked hroom t,
    fun u => ?_⟩, h.account, fun u => ?_, executorInv_busy rfl⟩
  · have := hcount u
    simp only [Executor.hand, Executor.deferred, Option.some.injEq] at this
    simp only [List.count_append, List.count_singleton, beq_iff_eq, busy_deferred, busy_hand,
      reduceCtorEq, if_false]
    omega
  · rw [busy_allocated, busy_made]
    exact h.slot he u

/-- The steps of the install function, and the deferral where it fails. -/
theorem inv_install (h : Inv s r o q) {ready : Bool} (phase : Phase G) (t : G.Task)
    (he : s.executor = .tryAllocate phase t ∨ s.executor = .dequeueInput phase t ∨
      (∃ f, s.executor = .write phase t f) ∨ s.executor = .setPending phase t ∨
      s.executor = .defer phase t)
    (hs : executorStep kind ready s = some s') : ∃ r' o' q', Inv s' r' o' q' := by
  rcases he with he | he | ⟨f, he⟩ | he | he
  · exact ⟨r, o, q, inv_tryAllocate h he hs⟩
  · obtain ⟨q', h'⟩ := inv_dequeueInput h he hs
    exact ⟨r, o, q', h'⟩
  · -- the write of the future
    have ht := h.slot he t
    rw [executorStep] at hs
    simp only [he, Option.some.injEq] at hs
    subst hs
    refine ⟨r, o, q, h.touch he rfl rfl ?_ ?_ trivial⟩
    · intro u hu
      simp [Executor.allocated, Executor.made, Ne.symm hu]
    · simp only [Executor.allocated, Executor.made, beq_self_eq_true] at ht
      simpa [Executor.allocated, Executor.made] using ht.write f
  · -- `set_pending`
    have ht := h.slot he t
    rw [executorStep] at hs
    simp only [he, Option.some.injEq] at hs
    subst hs
    refine ⟨r, o, q, h.touch he (installed_deferred _) (installed_hand _) ?_ ?_
      (executorInv_installed rfl)⟩
    · intro u hu
      rw [installed_allocated, installed_made]
      exact ⟨rfl, rfl, rfl⟩
    · rw [installed_allocated, installed_made]
      exact ht.setPending
  · exact ⟨r, o ++ [t], q, inv_defer h he hs⟩

/-- The steps of `ExecSlot::poll`. -/
theorem inv_poll (h : Inv s r o q) {ready : Bool} (t : G.Task) (stmts : List G.Task)
    (he : s.executor = .poll (t :: stmts) ∨ s.executor = .checkPending t stmts ∨
      s.executor = .polling t stmts ∨ s.executor = .dropping t stmts ∨
      s.executor = .release t stmts)
    (hs : executorStep kind ready s = some s') : Inv s' r o q := by
  have hx := h.executor
  rw [executorStep] at hs
  rw [ExecutorInv] at hx
  rcases he with he | he | he | he | he
  all_goals
    have ht := h.slot he t
    rw [he] at hx
  · -- `is_running`
    simp only [he, Option.some.injEq] at hs
    subst hs
    cases hr : (s.slots t).isRunning with
    | true =>
      refine h.move he rfl rfl rfl rfl ?_
      simp only [Executor.allocated, Option.none_beq_some] at ht
      exact ht.future_of_running hr
    | false => exact h.move he rfl rfl rfl rfl trivial
  · -- `check_and_clear_pending`
    simp only [he, Option.some.injEq] at hs
    subst hs
    cases hok : (s.slots t).checkAndClearPending.1 with
    | true =>
      refine h.touch he rfl rfl (fun _ _ => ⟨rfl, rfl, rfl⟩) ht.checkAndClearPending ?_
      show ((s.setSlot t _).slots t).future.isSome = true
      rw [setSlot_self, ExecSlot.checkAndClearPending_future]
      exact hx
    | false =>
      exact h.touch he rfl rfl (fun _ _ => ⟨rfl, rfl, rfl⟩) ht.checkAndClearPending trivial
  · -- the poll of the future itself
    obtain ⟨f, hf⟩ := Option.isSome_iff_exists.mp hx
    simp only [he, hf, Option.some.injEq] at hs
    subst hs
    cases ready with
    | true => exact h.move he rfl rfl rfl rfl hx
    | false => exact h.move he rfl rfl rfl rfl trivial
  · -- `drop_in_place`
    simp only [he, Option.some.injEq] at hs
    subst hs
    refine h.touch he rfl rfl ?_ ?_ trivial
    · intro u hu
      simp [Executor.allocated, Executor.made, Ne.symm hu]
    · simp only [Executor.allocated, Executor.made, Option.none_beq_some] at ht
      simpa [Executor.allocated, Executor.made] using ht.drop hx
  · -- the store to `running`
    simp only [he, Option.some.injEq] at hs
    subst hs
    refine h.touch he rfl rfl ?_ ?_ trivial
    · intro u hu
      simp [Executor.allocated, Executor.made, Ne.symm hu]
    · simp only [Executor.allocated, Executor.made, Option.none_beq_some, beq_self_eq_true] at ht
      simpa [Executor.allocated, Executor.made] using ht.release

/-- The steps that take tasks out of the queues and the array, and those between the phases. -/
theorem inv_control (h : Inv s r o q) {ready : Bool}
    (he : s.executor = .drain ∨ s.executor = .poll [] ∨ (∃ d, s.executor = .collect d) ∨
      (∃ d t, s.executor = .store d t) ∨ (∃ d i, s.executor = .scan d i) ∨ s.executor = .repend)
    (hs : executorStep kind ready s = some s') : ∃ r' o', Inv s' r' o' q := by
  have hcount := h.tokens.count
  have hlen := h.tokens.length_le
  have hready := h.tokens.stores.ready
  have hover := h.tokens.overflow
  rw [executorStep] at hs
  rcases he with he | he | ⟨d, he⟩ | ⟨d, t, he⟩ | ⟨d, i, he⟩ | he
  all_goals
    have hslot := h.slot he
    rw [he] at hcount hlen
  · -- the ready queue
    cases r with
    | nil =>
      simp only [he, hready.dequeue_nil, Option.some.injEq] at hs
      subst hs
      exact ⟨[], o, h.move he rfl rfl rfl rfl trivial⟩
    | cons t r =>
      simp only [he, hready.dequeue_cons, Option.some.injEq] at hs
      subst hs
      refine ⟨r, o, ⟨⟨hready.dequeueUnchecked.2, h.tokens.stores.inputs⟩, hover, fun u => ?_⟩,
        h.account, hslot, trivial⟩
      have := hcount u
      simp only [List.count_cons, beq_iff_eq, Executor.deferred, Executor.hand, Phase.rest,
        List.count_nil, Option.some.injEq, reduceCtorEq, if_false] at this ⊢
      omega
  · -- all running futures have been polled
    simp only [he, Option.some.injEq] at hs
    subst hs
    exact ⟨r, o, h.move he rfl rfl rfl rfl trivial⟩
  · -- the overflow queue
    cases o with
    | nil =>
      simp only [he, hover.dequeue_nil, Option.some.injEq] at hs
      subst hs
      exact ⟨r, [], h.move he rfl rfl rfl rfl trivial⟩
    | cons t o =>
      simp only [he, hover.dequeue_cons, Option.some.injEq] at hs
      subst hs
      refine ⟨r, o, ⟨h.tokens.stores, hover.dequeueUnchecked.2, fun u => ?_⟩, h.account, hslot,
        trivial⟩
      have := hcount u
      simp only [List.count_cons, beq_iff_eq, Executor.deferred, Executor.hand, Option.some.injEq,
        reduceCtorEq, if_false] at this ⊢
      omega
  · -- the array has room for every token
    simp only [he, Option.some.injEq] at hs
    subst hs
    have hroom : d.length < G.sumCapacity := by
      simp only [Executor.deferred, Executor.hand, Option.toList_some, List.length_append,
        List.length_singleton] at hlen
      omega
    simp only [hroom, if_true]
    refine ⟨r, o, ⟨h.tokens.stores, hover, fun u => ?_⟩, h.account, hslot, trivial⟩
    have := hcount u
    simp only [List.count_append, List.count_singleton, beq_iff_eq, Executor.deferred,
      Executor.hand, Option.some.injEq, reduceCtorEq, if_false] at this ⊢
    omega
  · cases d with
    | nil =>
      simp only [he] at hs
      cases kind with
      | idle =>
        cases hs
        exact ⟨r, o, h.move he rfl rfl rfl rfl trivial⟩
      | dispatcher =>
        cases hs
        cases i
        all_goals exact ⟨r, o, h.move he rfl rfl rfl rfl trivial⟩
    | cons t d =>
      simp only [he, Option.some.injEq] at hs
      subst hs
      refine ⟨r, o, ⟨h.tokens.stores, hover, fun u => ?_⟩, h.account, hslot, trivial⟩
      have := hcount u
      simp only [List.count_cons, beq_iff_eq, Executor.deferred, Executor.hand, Phase.rest,
        Option.some.injEq, reduceCtorEq, if_false] at this ⊢
      omega
  · simp only [he, Option.some.injEq] at hs
    subst hs
    exact ⟨r, o, ⟨⟨hready, h.tokens.stores.inputs⟩, hover, hcount⟩, h.account, hslot, trivial⟩

/-- **A step of the executor keeps the invariant.** -/
theorem inv_executorStep (h : Inv s r o q) {ready : Bool}
    (hs : executorStep kind ready s = some s') : ∃ r' o' q', Inv s' r' o' q' := by
  have control : _ → ∃ r' o' q', Inv s' r' o' q' := fun he =>
    let ⟨r', o', h'⟩ := inv_control h he hs
    ⟨r', o', q, h'⟩
  cases he : s.executor with
  | inactive | fault => rw [executorStep, he] at hs; cases hs
  | tryAllocate phase t | dequeueInput phase t | write phase t f | setPending phase t
  | defer phase t => exact inv_install h phase t (by simp [he]) hs
  | checkPending t stmts | polling t stmts | dropping t stmts | release t stmts =>
    exact ⟨r, o, q, inv_poll h t stmts (by simp [he]) hs⟩
  | poll stmts =>
    cases stmts with
    | nil => exact control (by simp [he])
    | cons t stmts => exact ⟨r, o, q, inv_poll h t stmts (Or.inl he) hs⟩
  | drain | collect d | store d t | scan d i | repend => exact control (by simp [he])

/-- A waker sets one flag. -/
theorem inv_wake (h : Inv s r o q) (t : G.Task) (n : Nat) :
    Inv { s.setSlot t (s.slots t).setPending with waking := n } r o q where
  tokens := ⟨h.tokens.stores, h.tokens.overflow, h.tokens.count⟩
  account := h.account
  slots := by
    intro u
    by_cases hu : u = t
    · subst hu
      simpa [State.setSlot] using (h.slots u).setPending
    · simpa [State.setSlot, hu] using h.slots u
  executor := by
    have hsame : ∀ u, ((s.setSlot t (s.slots t).setPending).slots u).running = (s.slots u).running ∧
        ((s.setSlot t (s.slots t).setPending).slots u).future = (s.slots u).future := by
      intro u
      by_cases hu : u = t
      · subst hu
        simp [ExecSlot.setPending]
      · simp [State.setSlot, hu]
    have hx := h.executor
    unfold ExecutorInv at hx ⊢
    cases he : s.executor <;> simp only [he, setSlot_executor] at hx ⊢
    case defer phase u => exact (hsame u).1.trans hx
    case checkPending u stmts | polling u stmts | dropping u stmts =>
      exact (congrArg Option.isSome (hsame u).2).trans hx

/-- Nothing but the flag and the pending bit of the statics changes. -/
theorem inv_statics (h : Inv s r o q) (initialized pending : Bool) (n : Nat) :
    Inv { s with
      statics := { s.statics with systemInitialized := initialized, pending := pending }
      waking := n } r o q :=
  ⟨⟨⟨h.tokens.stores.ready, h.tokens.stores.inputs⟩, h.tokens.overflow, h.tokens.count⟩,
    h.account, h.slots, h.executor⟩

theorem inv_step (h : Inv s r o q) {a : Action G I} (hs : step kind hasCoreId s a = some s') :
    ∃ r' o' q', Inv s' r' o' q' := by
  cases a with
  | systemInitialized => cases hs; exact ⟨r, o, q, inv_statics h true _ _⟩
  | pend => cases hs; exact ⟨r, o, q, inv_statics h _ true _⟩
  | wakePend =>
    simp only [step] at hs
    split at hs <;> cases hs
    exact ⟨r, o, q, inv_statics h _ true _⟩
  | enter =>
    simp only [step] at hs
    split at hs
    next he =>
      split at hs <;> cases hs
      have hcount := h.tokens.count
      have hslot := h.slot he
      rw [he] at hcount
      exact ⟨r, o, q, ⟨⟨h.tokens.stores.ready, h.tokens.stores.inputs⟩, h.tokens.overflow,
        hcount⟩, h.account, hslot, trivial⟩
    · cases hs
  | wake t => cases hs; exact ⟨r, o, q, inv_wake h t _⟩
  | spawn t input caller pendOk =>
    obtain ⟨r', q', h'⟩ := inv_spawn h hs
    exact ⟨r', o, q', h'⟩
  | run ready => exact inv_executorStep h hs

theorem inv_reachable (h : (machine kind G I hasCoreId).Reachable s) : ∃ r o q, Inv s r o q :=
  h.invariant (P := fun s => ∃ r o q, Inv s r o q) ⟨_, _, _, inv_init⟩
    fun _ _ _ _ ⟨_, _, _, hi⟩ hs => inv_step hi hs

/-! ## Spawns in every interleaving -/

/--
**Async dispatch conserves spawns.** In every state of every interleaving of spawns and wakers
with the steps of either executor, whatever the futures do:

* the entries of a task in the ready queue, the overflow queue, the rest of `deferred` and the
  executor's hand add up to its inputs;
* hence neither queue is full where an entry is put into it without looking, the array has room,
  and no input is taken out of an empty queue;
* the futures of a task are made from its accepted inputs in order, each once, and those accepted
  inputs that are left are exactly those in its input queue;
* at most one future of a task is live, and no future is written over another.
-/
theorem async_conserves_spawns (h : (machine kind G I hasCoreId).Reachable s) (t : G.Task) :
    s.statics.ready.contents.count t + s.overflow.contents.count t +
        s.executor.deferred.count t + (if s.executor.hand = some t then 1 else 0) =
      (s.statics.inputs t).contents.length ∧
    (∀ x q, (s.statics.inputs t).enqueue x = .ok q → s.statics.ready.isFull = false) ∧
    (∀ phase, s.executor = .defer phase t → s.overflow.isFull = false) ∧
    (∀ deferred, s.executor = .store deferred t → deferred.length < G.sumCapacity) ∧
    (∀ phase, s.executor = .dequeueInput phase t → (s.statics.inputs t).isEmpty = false) ∧
    s.executor ≠ .fault ∧
    Fifo.Account ((inputsOf s.accepted t).map some) (inputsOf s.created t)
      ((s.statics.inputs t).contents.map some) ∧
    (inputsOf s.created t).length ≤ s.dropped.count t + 1 ∧
    (∀ phase f, s.executor = .write phase t f → (s.slots t).future = none) := by
  obtain ⟨r, o, q, hi⟩ := inv_reachable h
  have hcount := hi.tokens.count
  have hst := hi.tokens.stores
  have hlen := hi.tokens.length_le
  have hslot := hi.slots t
  rw [hst.ready.contents, (hst.inputs t).contents, hi.tokens.overflow.contents]
  refine ⟨hcount t, ?_, ?_, ?_, ?_, ?_, hi.account t, ?_, ?_⟩
  · intro x q' hq
    have hle : ∀ u, r.count u ≤ (q u).length := fun u => by have := hcount u; omega
    have hroom := hst.ready_room hle ((hst.inputs t).enqueue_eq_ok hq).1
    exact hst.ready.isFull_false hroom
  · intro phase he
    rw [he] at hlen
    simp only [Executor.hand, Option.toList_some, List.length_append, List.length_singleton] at hlen
    refine hi.tokens.overflow.isFull_false ?_
    rw [Group.readyQueueSize]
    omega
  · intro deferred he
    rw [he] at hlen
    simp only [Executor.deferred, Executor.hand, Option.toList_some, List.length_append,
      List.length_singleton] at hlen
    omega
  · intro phase he
    have := hcount t
    rw [he] at this
    refine (hst.inputs t).isEmpty_false fun hnil => ?_
    simp [Executor.hand, hnil] at this
  · intro he
    have hx := hi.executor
    rw [ExecutorInv, he] at hx
    exact hx
  · have hl := hslot.live
    have hmade : s.executor.made = some t → s.executor.allocated = some t := by
      cases he : s.executor <;> simp [Executor.made, Executor.allocated]
    by_cases hm : s.executor.made = some t
    · have hf := hslot.free (by simp [hmade hm])
      simp only [hm, hf, beq_self_eq_true, Option.isSome_none, Bool.toNat_false,
        Bool.toNat_true] at hl
      omega
    · have hle := Bool.toNat_le (s.slots t).future.isSome
      simp only [beq_eq_false_iff_ne.mpr hm, Bool.toNat_false] at hl
      omega
  · intro phase f he
    exact hslot.free (by simp [he, Executor.allocated])

/-- A group of two async tasks on core 0. -/
def twoTasks : Group where
  core := 0
  tasks := [⟨"Blink", 0, 2⟩, ⟨"Report", 0, 1⟩]
  capacity_pos := by decide

def blink : twoTasks.Task := ⟨0, by decide⟩

/-- The second spawn of a task finds its slot busy and is deferred. -/
def busySlot : List (Action twoTasks Nat) :=
  [.systemInitialized, .spawn blink 10 0 true, .spawn blink 11 0 true, .enter] ++
    List.replicate 8 (.run false)

theorem async_conserves_spawns_run :
    ∃ s, (machine .dispatcher twoTasks Nat true).exec
        (machine .dispatcher twoTasks Nat true).init busySlot = some s ∧
      inputsOf s.created blink = [some 10] ∧ s.overflow.contents = [blink] ∧
      (inputsOf s.created blink).length ≤ s.dropped.count blink + 1 := by
  refine ⟨_, rfl, rfl, rfl, ?_⟩
  have h : (machine .dispatcher twoTasks Nat true).Reachable _ :=
    Machine.reachable_iff_exec.mpr ⟨busySlot, rfl⟩
  exact (async_conserves_spawns h blink).2.2.2.2.2.2.2.1

end Dispatch

end Rticx.AsyncPass
