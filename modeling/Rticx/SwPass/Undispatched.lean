import Rticx.Lib.Machine
import Rticx.SwPass.Spawn

/-!
# Spawns that wait for the dispatcher

The critical section of a spawn step by step: the input, the ready entry, the interrupt. On the
core of the group it keeps the dispatcher from running; on another core it does not, and the
dispatcher may run between any two of these steps. The critical sections of the group exclude each
other, because they are all on one core. An operation of a queue is one step.
-/

namespace Rticx.SwPass.Undispatched

open Lib Spsc

variable {G : Group} {I : Type} {hasCoreId : Bool}

/-! ## The machine -/

/-- Where the dispatcher is. -/
inductive Dispatcher (G : Group) (I : Type) where
  | inactive
  /-- `while let Some(task) = ready_consumer.dequeue()` -/
  | loop
  /-- `let input = input_consumer.dequeue_unchecked()` -/
  | dequeued (t : G.Task)
  /-- inside `exec(input)`; the input is `none` if it was read from a slot without a value -/
  | exec (t : G.Task) (input : Option I)
  /-- behind the loop -/
  | returning
  /-- it took a ready entry out of a slot without a value -/
  | fault

/-- The dispatcher has not yet made the dequeue that ends its loop. -/
def Dispatcher.Looping : Dispatcher G I → Prop
  | .loop | .dequeued _ | .exec _ _ => True
  | _ => False

/-- The task dequeued without its input. -/
def Dispatcher.hand : Dispatcher G I → Option G.Task
  | .dequeued t => some t
  | _ => none

/-- A spawn in its critical section that has enqueued its input. -/
structure HalfSpawn (G : Group) where
  number : Nat
  caller : Nat
  task : G.Task
  /-- the ready entry is enqueued as well -/
  entered : Bool

/--
The statics, the dispatcher and the spawn that is half done, with the history: the numbers of the
spawns whose entries are in the ready queue, how many there have been, and which of them returned
`Err(None)`.
-/
structure State (G : Group) (I : Type) where
  statics : Statics G I
  dispatcher : Dispatcher G I
  spawning : Option (HalfSpawn G)
  entries : List (Nat × G.Task)
  spawns : Nat
  failed : List Nat

inductive Action (G : Group) (I : Type) where
  /-- `__rticx_sw_system_initialized = true` -/
  | systemInitialized
  /-- a call of `spawn` or `cross_spawn`, up to the input -/
  | spawn (t : G.Task) (input : I) (caller : Nat)
  /-- `ready_producer.enqueue_unchecked` -/
  | enqueueReady
  /-- the interrupt-pending statement, and the end of the critical section -/
  | pendDispatcher (pendOk : Bool)
  /-- somebody pends the interrupt by hand -/
  | pend
  /-- the pending interrupt is taken -/
  | enter
  /-- a step of the dispatcher -/
  | dispatch

namespace State

/-- The core of the group is in a critical section. -/
def masked (s : State G I) : Bool := s.spawning.any fun half => half.caller == G.core

/-- The checks of a spawn and its input; a call that hands the input back changes nothing. -/
def spawn (hasCoreId : Bool) (s : State G I) (t : G.Task) (input : I) (caller : Nat) :
    Option (State G I) :=
  if (G.spawnApi hasCoreId t).coreCheck.any (caller != ·) then some s
  else
    match s.spawning with
    | some _ => none
    | none =>
      if !s.statics.systemInitialized then some s
      else
        match (s.statics.inputs t).enqueue input with
        | .error _ => some s
        | .ok q => some { s with
            statics := { s.statics with inputs := Function.update s.statics.inputs t q }
            spawning := some { number := s.spawns, caller := caller, task := t, entered := false }
            spawns := s.spawns + 1 }

def enqueueReady (s : State G I) : Option (State G I) :=
  match s.spawning with
  | some half =>
    if half.entered then none
    else some { s with
      statics := { s.statics with ready := s.statics.ready.enqueueUnchecked half.task }
      spawning := some { half with entered := true }
      entries := s.entries ++ [(half.number, half.task)] }
  | none => none

def pendDispatcher (hasCoreId : Bool) (s : State G I) (pendOk : Bool) : Option (State G I) :=
  match s.spawning with
  | some half =>
    if half.entered then
      match (G.spawnApi hasCoreId half.task).pendStmt with
      | none => some { s with spawning := none }
      | some .coreLocal =>
        some { s with statics := { s.statics with pending := true }, spawning := none }
      | some .crossCore =>
        if pendOk then
          some { s with statics := { s.statics with pending := true }, spawning := none }
        else some { s with spawning := none, failed := half.number :: s.failed }
    else none
  | none => none

/-- Entering the dispatcher clears the pending bit. -/
def enter (s : State G I) : Option (State G I) :=
  match s.dispatcher with
  | .inactive =>
    if s.statics.pending && !s.masked then
      some { s with dispatcher := .loop, statics := { s.statics with pending := false } }
    else none
  | _ => none

/-- A step of the dispatcher. -/
def dispatch (s : State G I) : Option (State G I) :=
  if s.masked then none
  else
    match s.dispatcher with
    | .inactive | .fault => none
    | .loop =>
      match s.statics.ready.dequeue with
      | none => some { s with dispatcher := .returning }
      | some (some t, ready) => some { s with
          dispatcher := .dequeued t
          statics := { s.statics with ready := ready }
          entries := s.entries.tail }
      | some (none, ready) => some { s with
          dispatcher := .fault
          statics := { s.statics with ready := ready }
          entries := s.entries.tail }
    | .dequeued t =>
      some { s with
        dispatcher := .exec t (s.statics.inputs t).dequeueUnchecked.1
        statics := { s.statics with
          inputs := Function.update s.statics.inputs t (s.statics.inputs t).dequeueUnchecked.2 } }
    | .exec _ _ => some { s with dispatcher := .loop }
    | .returning => some { s with dispatcher := .inactive }

end State

def step (hasCoreId : Bool) (s : State G I) : Action G I → Option (State G I)
  | .systemInitialized => some { s with statics := { s.statics with systemInitialized := true } }
  | .spawn t input caller => s.spawn hasCoreId t input caller
  | .enqueueReady => s.enqueueReady
  | .pendDispatcher pendOk => s.pendDispatcher hasCoreId pendOk
  | .pend => some { s with statics := { s.statics with pending := true } }
  | .enter => s.enter
  | .dispatch => s.dispatch

/-- The group from reset. -/
def machine (G : Group) (I : Type) (hasCoreId : Bool) : Machine (State G I) (Action G I) where
  init :=
    { statics := Statics.new, dispatcher := .inactive, spawning := none
      entries := [], spawns := 0, failed := [] }
  step := step hasCoreId

/-! ## The invariant -/

/-- The input of the half-done spawn has no ready entry yet. -/
def State.started (s : State G I) (t : G.Task) : Nat :=
  if s.spawning.any fun half => !half.entered && half.task == t then 1 else 0

/-- The entry is that of the half-done spawn, which has yet to pend the dispatcher. -/
def State.Unpended (s : State G I) (number : Nat) : Prop :=
  ∃ half, s.spawning = some half ∧ half.number = number ∧ half.entered = true

/-- Each ready entry has an input, and somebody who will look after it. -/
structure Inv (s : State G I) (inputs : G.Task → List I) : Prop where
  stores : s.statics.Stores (s.entries.map Prod.snd) inputs
  count : ∀ t, (s.entries.map Prod.snd).count t + (if s.dispatcher.hand = some t then 1 else 0) +
    s.started t ≤ (inputs t).length
  waits : ∀ entry ∈ s.entries, s.statics.pending = true ∨ s.dispatcher.Looping ∨
    entry.1 ∈ s.failed ∨ s.Unpended entry.1

theorem inv_init : Inv (machine G I hasCoreId).init fun _ => [] where
  stores := Statics.new_stores
  count := by
    intro t
    simp [machine, Dispatcher.hand, State.started]
  waits := by
    intro entry hentry
    cases hentry

theorem inv_spawn {s s' : State G I} {inputs : G.Task → List I} (h : Inv s inputs) {t : G.Task}
    {input : I} {caller : Nat} (hs : s.spawn hasCoreId t input caller = some s') :
    ∃ inputs', Inv s' inputs' := by
  unfold State.spawn at hs
  split at hs
  · cases hs
    exact ⟨inputs, h⟩
  split at hs
  · cases hs
  rename_i hspawning
  split at hs
  · cases hs
    exact ⟨inputs, h⟩
  split at hs
  · cases hs
    exact ⟨inputs, h⟩
  rename_i q hq
  cases hs
  obtain ⟨hroom, rfl⟩ := (h.stores.inputs t).enqueue_eq_ok hq
  refine ⟨Function.update inputs t (inputs t ++ [input]), ⟨h.stores.ready, ?_⟩, ?_, ?_⟩
  · intro u
    by_cases hu : u = t
    · subst hu
      simpa using (h.stores.inputs u).enqueueUnchecked hroom input
    · simpa [hu] using h.stores.inputs u
  · intro u
    have hcount := h.count u
    by_cases hu : u = t
    · subst hu
      simp only [State.started, hspawning, Option.any_none, Option.any_some] at hcount ⊢
      simp at hcount ⊢
      omega
    · simp only [State.started, hspawning, Option.any_none, Option.any_some] at hcount ⊢
      simp [hu, Ne.symm hu] at hcount ⊢
      omega
  · intro entry hentry
    rcases h.waits entry hentry with hw | hw | hw | ⟨half, hhalf, -⟩
    · exact .inl hw
    · exact .inr (.inl hw)
    · exact .inr (.inr (.inl hw))
    · rw [hspawning] at hhalf
      cases hhalf

theorem inv_enqueueReady {s s' : State G I} {inputs : G.Task → List I} (h : Inv s inputs)
    (hs : s.enqueueReady = some s') : Inv s' inputs := by
  unfold State.enqueueReady at hs
  split at hs
  · rename_i half hspawning
    split at hs
    · cases hs
    rename_i hentered
    cases hs
    have hstarted : s.started half.task = 1 := by simp [State.started, hspawning, hentered]
    have hle : ∀ u, (s.entries.map Prod.snd).count u ≤ (inputs u).length := by
      intro u
      have := h.count u
      omega
    -- the entry of an input that is already there finds room
    have hroom : (s.entries.map Prod.snd).length + 1 < G.readyQueueSize := by
      have hlt : (s.entries.map Prod.snd).count half.task < G.capacity half.task := by
        have := h.count half.task
        have := h.stores.inputs_le half.task
        omega
      have := Tokens.length_lt_sum (fun u => (hle u).trans (h.stores.inputs_le u)) hlt
      rw [Group.readyQueueSize, G.sumCapacity_eq]
      omega
    refine ⟨⟨?_, h.stores.inputs⟩, ?_, ?_⟩
    · rw [List.map_append]
      exact h.stores.ready.enqueueUnchecked hroom half.task
    · intro u
      have hcount := h.count u
      rw [List.map_append, List.count_append]
      by_cases hu : u = half.task
      · subst hu
        simp [State.started, hspawning, hentered] at hcount ⊢
        omega
      · simp [State.started, hspawning, hentered, Ne.symm hu] at hcount ⊢
        omega
    · intro entry hentry
      rcases List.mem_append.mp hentry with hentry | hentry
      · rcases h.waits entry hentry with hw | hw | hw | ⟨half', hhalf', hnumber, hentered'⟩
        · exact .inl hw
        · exact .inr (.inl hw)
        · exact .inr (.inr (.inl hw))
        · rw [hspawning] at hhalf'
          cases hhalf'
          exact absurd hentered' hentered
      · obtain rfl := List.mem_singleton.mp hentry
        exact .inr (.inr (.inr ⟨_, rfl, rfl, rfl⟩))
  · cases hs

theorem inv_pendDispatcher {s s' : State G I} {inputs : G.Task → List I} (h : Inv s inputs)
    {pendOk : Bool} (hs : s.pendDispatcher hasCoreId pendOk = some s') : Inv s' inputs := by
  unfold State.pendDispatcher at hs
  split at hs
  · rename_i half hspawning
    split at hs
    · rename_i hentered
      have hcount : ∀ t, (s.entries.map Prod.snd).count t +
          (if s.dispatcher.hand = some t then 1 else 0) + 0 ≤ (inputs t).length := by
        intro t
        have := h.count t
        omega
      split at hs
      · rename_i hpend
        exact absurd hpend (by simp [Group.spawnApi])
      · cases hs
        exact ⟨⟨h.stores.ready, h.stores.inputs⟩, hcount, fun _ _ => .inl rfl⟩
      · split at hs
        · cases hs
          exact ⟨⟨h.stores.ready, h.stores.inputs⟩, hcount, fun _ _ => .inl rfl⟩
        · cases hs
          refine ⟨⟨h.stores.ready, h.stores.inputs⟩, hcount, ?_⟩
          intro entry hentry
          rcases h.waits entry hentry with hw | hw | hw | ⟨half', hhalf', hnumber, -⟩
          · exact .inl hw
          · exact .inr (.inl hw)
          · exact .inr (.inr (.inl (List.mem_cons_of_mem _ hw)))
          · rw [hspawning] at hhalf'
            cases hhalf'
            exact .inr (.inr (.inl (hnumber ▸ List.mem_cons_self)))
    · cases hs
  · cases hs

theorem inv_enter {s s' : State G I} {inputs : G.Task → List I} (h : Inv s inputs)
    (hs : s.enter = some s') : Inv s' inputs := by
  unfold State.enter at hs
  split at hs
  · rename_i hdispatcher
    split at hs
    · cases hs
      refine ⟨⟨h.stores.ready, h.stores.inputs⟩, ?_, fun _ _ => .inr (.inl trivial)⟩
      intro t
      have := h.count t
      rw [hdispatcher] at this
      exact this
    · cases hs
  · cases hs

theorem inv_dispatch {s s' : State G I} {inputs : G.Task → List I} (h : Inv s inputs)
    (hs : s.dispatch = some s') : ∃ inputs', Inv s' inputs' := by
  unfold State.dispatch at hs
  split at hs
  · cases hs
  cases hd : s.dispatcher with
  | inactive | fault =>
    rw [hd] at hs
    cases hs
  | loop =>
    rw [hd] at hs
    dsimp only at hs
    rcases h.stores.ready.dequeue_cases with ⟨hnil, hq⟩ | ⟨t, rest, ready, hcons, hq, hrest⟩
    · -- the loop ends on an empty ready queue
      rw [hq] at hs
      cases hs
      refine ⟨inputs, ⟨h.stores.ready, h.stores.inputs⟩, ?_, ?_⟩
      · intro t
        have := h.count t
        rw [hd] at this
        exact this
      · intro entry hentry
        rw [List.map_eq_nil_iff.mp hnil] at hentry
        cases hentry
    · rw [hq] at hs
      cases hs
      -- the numbers of the entries are in the order of the queue
      obtain ⟨entry, entries, hentries⟩ : ∃ entry entries, s.entries = entry :: entries :=
        List.exists_cons_of_ne_nil (by
          rintro hnil
          rw [hnil] at hcons
          cases hcons)
      rw [hentries, List.map_cons, List.cons.injEq] at hcons
      obtain ⟨rfl, rfl⟩ := hcons
      refine ⟨inputs, ⟨?_, h.stores.inputs⟩, ?_, fun _ _ => .inr (.inl trivial)⟩
      · rw [hentries]
        exact hrest
      · intro t
        have hcount := h.count t
        rw [hd, hentries, List.map_cons, List.count_cons] at hcount
        show (List.map Prod.snd s.entries.tail).count t + _ + s.started t ≤ _
        rw [hentries]
        simp only [Dispatcher.hand, Option.some.injEq, reduceCtorEq, if_false, beq_iff_eq,
          List.tail_cons] at hcount ⊢
        omega
  | dequeued t =>
    rw [hd] at hs
    cases hs
    have hcount := h.count t
    rw [hd] at hcount
    -- the task in hand counts for one of its inputs
    obtain ⟨x, rest, hrest⟩ : ∃ x rest, inputs t = x :: rest := by
      refine List.exists_cons_of_ne_nil fun hnil => ?_
      simp [Dispatcher.hand, hnil] at hcount
    have hin : (s.statics.inputs t).Holds (x :: rest) := hrest ▸ h.stores.inputs t
    refine ⟨Function.update inputs t rest, ⟨h.stores.ready, ?_⟩, ?_, fun _ _ => .inr (.inl trivial)⟩
    · intro u
      by_cases hu : u = t
      · subst hu
        simpa using hin.dequeueUnchecked.2
      · simpa [hu] using h.stores.inputs u
    · intro u
      show (List.map Prod.snd s.entries).count u + 0 + s.started u ≤ _
      by_cases hu : u = t
      · subst hu
        rw [hrest] at hcount
        simp [Dispatcher.hand] at hcount ⊢
        omega
      · have hcount := h.count u
        simp [hd, Dispatcher.hand, hu, Ne.symm hu] at hcount ⊢
        omega
  | exec t input =>
    rw [hd] at hs
    cases hs
    refine ⟨inputs, ⟨h.stores.ready, h.stores.inputs⟩, ?_, fun _ _ => .inr (.inl trivial)⟩
    intro u
    have := h.count u
    rw [hd] at this
    exact this
  | returning =>
    rw [hd] at hs
    cases hs
    refine ⟨inputs, ⟨h.stores.ready, h.stores.inputs⟩, ?_, ?_⟩
    · intro u
      have := h.count u
      rw [hd] at this
      exact this
    · intro entry hentry
      have := h.waits entry hentry
      rw [hd] at this
      exact this

theorem inv_step {s s' : State G I} {a : Action G I} {inputs : G.Task → List I} (h : Inv s inputs)
    (hs : step hasCoreId s a = some s') : ∃ inputs', Inv s' inputs' := by
  cases a with
  | systemInitialized =>
    cases hs
    exact ⟨inputs, ⟨h.stores.ready, h.stores.inputs⟩, h.count, h.waits⟩
  | spawn t input caller => exact inv_spawn h hs
  | enqueueReady => exact ⟨inputs, inv_enqueueReady h hs⟩
  | pendDispatcher pendOk => exact ⟨inputs, inv_pendDispatcher h hs⟩
  | pend =>
    cases hs
    exact ⟨inputs, ⟨h.stores.ready, h.stores.inputs⟩, h.count, fun _ _ => .inl rfl⟩
  | enter => exact ⟨inputs, inv_enter h hs⟩
  | dispatch => exact inv_dispatch h hs

theorem inv_reachable {s : State G I} (h : (machine G I hasCoreId).Reachable s) :
    ∃ inputs, Inv s inputs := by
  refine h.invariant (P := fun s => ∃ inputs, Inv s inputs) ⟨_, inv_init⟩ ?_
  rintro s a s' - ⟨inputs, hi⟩ hs
  exact inv_step hi hs

/-! ## Every run -/

/--
**No spawn is left undispatched.** Outside the critical sections the dispatcher is pending or has
yet to look again, or every entry in the ready queue, if there is any, is that of a spawn that
returned `Err(None)`.
-/
theorem no_spawn_undispatched {s : State G I} (h : (machine G I hasCoreId).Reachable s)
    (hspawning : s.spawning = none) :
    s.statics.ready.contents = s.entries.map Prod.snd ∧
      (s.statics.pending = true ∨ s.dispatcher.Looping ∨
        ∀ entry ∈ s.entries, entry.1 ∈ s.failed) := by
  obtain ⟨inputs, hi⟩ := inv_reachable h
  refine ⟨hi.stores.ready.contents, ?_⟩
  by_cases hp : s.statics.pending = true
  · exact .inl hp
  by_cases hl : s.dispatcher.Looping
  · exact .inr (.inl hl)
  refine .inr (.inr fun entry hentry => ?_)
  rcases hi.waits entry hentry with hw | hw | hw | ⟨half, hhalf, -⟩
  · exact absurd hw hp
  · exact absurd hw hl
  · exact hw
  · rw [hspawning] at hhalf
    cases hhalf

/-- A task on core 1 that core 0 spawns. -/
def remote : Group where
  core := 1
  tasks := [⟨"Remote", 0, 2⟩]
  capacity_pos := by decide

def remoteTask : remote.Task := ⟨0, by decide⟩

/-- The cross-core pend fails for the second spawn, after the dispatcher has ended its loop. -/
def failedPend : List (Action remote Nat) :=
  [.systemInitialized, .spawn remoteTask 10 0, .enqueueReady, .pendDispatcher true, .enter,
    .dispatch, .dispatch, .dispatch, .dispatch, .spawn remoteTask 11 0, .enqueueReady,
    .pendDispatcher false, .dispatch]

theorem no_spawn_undispatched_failed :
    ∃ s, (machine remote Nat true).exec (machine remote Nat true).init failedPend = some s ∧
      s.entries = [(1, remoteTask)] ∧ s.failed = [1] ∧
      s.statics.ready.contents = s.entries.map Prod.snd ∧
      (s.statics.pending = true ∨ s.dispatcher.Looping ∨
        ∀ entry ∈ s.entries, entry.1 ∈ s.failed) := by
  refine ⟨_, rfl, rfl, rfl, ?_⟩
  have h : (machine remote Nat true).Reachable _ :=
    Machine.reachable_iff_exec.mpr ⟨failedPend, rfl⟩
  exact no_spawn_undispatched h rfl

end Rticx.SwPass.Undispatched
