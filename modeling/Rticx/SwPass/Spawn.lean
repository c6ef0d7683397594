import Mathlib.Algebra.BigOperators.Fin
import Rticx.Lib.Tokens
import Rticx.Spsc.Queue

/-!
# The spawn API of a priority group

`generate_spawn_api` of `rticx-sw-pass/src/common/codegen.rs`, the template from which the
software pass and the async pass both emit `spawn` and `cross_spawn`. All tasks of one priority
on one core share a ready queue; each has an input queue of its own. A spawn puts the input into
the latter and the task into the former, the second time without looking for room.

* `Group` is an entry of `tasks_priority_map`, and `Group.Task` the enum generated for it.
* `spawn` is the body of the generated function.
* `spawn_cases` says all a call can do, provided the ready queue never holds more entries of a
  task than the task has inputs.
-/

namespace Rticx.SwPass

open Spsc

/-! ## Priority groups -/

/-- A task of a priority group: its name, the core that may spawn it and its input capacity. -/
structure GroupTask where
  name : String
  spawnBy : Nat
  capacity : Nat

/-- The tasks of one priority on one core. -/
structure Group where
  core : Nat
  tasks : List GroupTask
  capacity_pos : ∀ task ∈ tasks, 1 ≤ task.capacity

namespace Group

/-- The enum generated for the group: one variant for each task, in order. -/
abbrev Task (G : Group) : Type := Fin G.tasks.length

/-- The capacity a task was declared with. -/
def capacity (G : Group) (t : G.Task) : Nat := (G.tasks.get t).capacity

/-- `tasks.iter().map(|(_, _, capacity)| capacity).sum()` -/
def sumCapacity (G : Group) : Nat := (G.tasks.map GroupTask.capacity).sum

/-- `ready_queue_size` -/
def readyQueueSize (G : Group) : Nat := G.sumCapacity + 1

/-- `queue_buffer_size` -/
def queueBufferSize (G : Group) (t : G.Task) : Nat := G.capacity t + 1

/-- Every task of the group is spawned from the core it runs on. -/
def OneCore (G : Group) : Prop := ∀ task ∈ G.tasks, task.spawnBy = G.core

theorem sumCapacity_eq (G : Group) : G.sumCapacity = ∑ t, G.capacity t := by
  simp only [sumCapacity, capacity, List.get_eq_getElem]
  exact (Fin.sum_univ_fun_getElem G.tasks GroupTask.capacity).symm

end Group

variable {G : Group} {I : Type}

/-! ## The generated statics -/

/--
The statics a spawn works on: the ready queue, the input queues, the "system initialized" flag
and the pending bit of the dispatcher's interrupt.
-/
structure Statics (G : Group) (I : Type) where
  ready : Queue G.Task G.readyQueueSize
  inputs : (t : G.Task) → Queue I (G.queueBufferSize t)
  systemInitialized : Bool
  pending : Bool

/-- The statics at reset. -/
def Statics.new : Statics G I where
  ready := Queue.new
  inputs := fun _ => Queue.new
  systemInitialized := false
  pending := false

/-- The interrupt-pending statement; only the one of a cross-core spawn can fail. -/
inductive PendStmt where
  | coreLocal
  | crossCore
  deriving DecidableEq

/-- The parameters of the template that the body depends on. -/
structure SpawnApiParams where
  /-- `None` for the priority-0 idle executor, which has no interrupt. -/
  pendStmt : Option PendStmt
  /-- The core the caller is checked to run on. -/
  coreCheck : Option Nat

/-- `SoftwareTask::generate_spawn_api`; `hasCoreId` is `backend.current_core_id().is_some()`. -/
def Group.spawnApi (G : Group) (hasCoreId : Bool) (t : G.Task) : SpawnApiParams :=
  let spawnBy := (G.tasks.get t).spawnBy
  let cross := G.core != spawnBy
  { pendStmt := some (if cross then .crossCore else .coreLocal)
    coreCheck := if hasCoreId then some (if cross then spawnBy else G.core) else none }

theorem Group.OneCore.pendStmt (h : G.OneCore) (hasCoreId : Bool) (t : G.Task) :
    (G.spawnApi hasCoreId t).pendStmt = some .coreLocal := by
  have hby : (G.tasks.get t).spawnBy = G.core := h _ (List.get_mem ..)
  simp only [spawnApi, hby, bne_self_eq_false, Bool.false_eq_true, if_false]

/--
The body of `spawn` and `cross_spawn`, called from the core `caller`; `pendOk` is the answer of
the cross-core pend function. `Err(Some(input))` and the `Err(input)` of a local spawn are
`.error (some input)`, and `Err(None)` is `.error none`.
-/
def spawn (p : SpawnApiParams) (t : G.Task) (input : I) (caller : Nat) (pendOk : Bool)
    (b : Statics G I) : Except (Option I) Unit × Statics G I :=
  if p.coreCheck.any (caller != ·) then (.error (some input), b)
  else if !b.systemInitialized then (.error (some input), b)
  else
    match (b.inputs t).enqueue input with
    | .error input => (.error (some input), b)
    | .ok q =>
      let b := { b with
        inputs := Function.update b.inputs t q
        ready := b.ready.enqueueUnchecked t }
      match p.pendStmt with
      | none => (.ok (), b)
      | some .coreLocal => (.ok (), { b with pending := true })
      | some .crossCore => if pendOk then (.ok (), { b with pending := true }) else (.error none, b)

/-- The input was handed back; every other answer means that it was enqueued. -/
def rejects : Except (Option I) Unit → Bool
  | .error (some _) => true
  | _ => false

/-! ## What the statics store -/

/-- The ready queue stores `tokens`, and the input queue of each task `t` stores `inputs t`. -/
structure Statics.Stores (b : Statics G I) (tokens : List G.Task) (inputs : G.Task → List I) :
    Prop where
  ready : b.ready.Holds tokens
  inputs : ∀ t, (b.inputs t).Holds (inputs t)

variable {b : Statics G I} {tokens : List G.Task} {inputs : G.Task → List I}

theorem Statics.new_stores : (Statics.new : Statics G I).Stores [] fun _ => [] where
  ready := Queue.new_holds (Nat.succ_pos _)
  inputs := fun _ => Queue.new_holds (Nat.succ_pos _)

theorem Statics.Stores.inputs_le (h : b.Stores tokens inputs) (t : G.Task) :
    (inputs t).length ≤ G.capacity t := by
  have := (h.inputs t).room
  rw [Group.queueBufferSize] at this
  omega

/-- **A ready entry per input at most: then room for an input is room for its entry.** -/
theorem Statics.Stores.ready_room (h : b.Stores tokens inputs)
    (hc : ∀ t, tokens.count t ≤ (inputs t).length) {t : G.Task}
    (ht : (inputs t).length + 1 < G.queueBufferSize t) :
    tokens.length + 1 < G.readyQueueSize := by
  have hle : ∀ u, tokens.count u ≤ G.capacity u := fun u => (hc u).trans (h.inputs_le u)
  have hlt : tokens.count t < G.capacity t := by
    have := hc t
    rw [Group.queueBufferSize] at ht
    omega
  have := Lib.Tokens.length_lt_sum hle hlt
  rw [Group.readyQueueSize, G.sumCapacity_eq]
  omega

/-! ## What a call can do -/

/-- What an accepted spawn leaves behind. -/
structure Spawned (t : G.Task) (input : I) (b b' : Statics G I) (tokens : List G.Task)
    (inputs : G.Task → List I) : Prop where
  stores : b'.Stores (tokens ++ [t]) (Function.update inputs t (inputs t ++ [input]))
  systemInitialized : b'.systemInitialized = b.systemInitialized

theorem Statics.Stores.spawned (h : b.Stores tokens inputs)
    (hc : ∀ t, tokens.count t ≤ (inputs t).length) {t : G.Task} {input : I}
    (ht : (inputs t).length + 1 < G.queueBufferSize t) (pending : Bool) :
    Spawned t input b
      { b with
        inputs := Function.update b.inputs t ((b.inputs t).enqueueUnchecked input)
        ready := b.ready.enqueueUnchecked t
        pending := pending } tokens inputs where
  stores.ready := h.ready.enqueueUnchecked (h.ready_room hc ht) t
  stores.inputs := by
    intro u
    by_cases hu : u = t
    · subst hu
      simpa using (h.inputs u).enqueueUnchecked ht input
    · simpa [hu] using h.inputs u
  systemInitialized := rfl

/--
**What a spawn can do.** It hands its input back and changes nothing, or it stores the input and
the entry and either pends the dispatcher or answers `Err(None)`.
-/
theorem spawn_cases (p : SpawnApiParams) (t : G.Task) (input : I) (caller : Nat) (pendOk : Bool)
    (h : b.Stores tokens inputs) (hc : ∀ t, tokens.count t ≤ (inputs t).length)
    {r : Except (Option I) Unit} {b' : Statics G I}
    (hr : spawn p t input caller pendOk b = (r, b')) :
    (r = .error (some input) ∧ b' = b) ∨
      (rejects r = false ∧ b.systemInitialized = true ∧ Spawned t input b b' tokens inputs ∧
        ((r = .ok () ∧ b'.pending = (p.pendStmt.isSome || b.pending)) ∨
          (r = .error none ∧ p.pendStmt = some .crossCore ∧ b'.pending = b.pending))) := by
  rw [spawn] at hr
  split at hr
  · exact Or.inl ⟨(congrArg Prod.fst hr).symm, (congrArg Prod.snd hr).symm⟩
  split at hr
  · exact Or.inl ⟨(congrArg Prod.fst hr).symm, (congrArg Prod.snd hr).symm⟩
  next hinit =>
  have hinit : b.systemInitialized = true := by simpa using hinit
  split at hr
  next input' hq =>
    have : input' = input := by
      rw [Queue.enqueue] at hq
      split at hq <;> cases hq
      rfl
    subst this
    exact Or.inl ⟨(congrArg Prod.fst hr).symm, (congrArg Prod.snd hr).symm⟩
  next q hq =>
    obtain ⟨hroom, rfl⟩ := (h.inputs t).enqueue_eq_ok hq
    have hs : ∀ pending, Spawned t input b _ tokens inputs := h.spawned hc hroom
    refine Or.inr ?_
    cases hp : p.pendStmt with
    | none =>
      rw [hp] at hr
      cases hr
      exact ⟨rfl, hinit, hs b.pending, Or.inl ⟨rfl, by simp⟩⟩
    | some stmt =>
      rw [hp] at hr
      cases stmt with
      | coreLocal =>
        cases hr
        exact ⟨rfl, hinit, hs true, Or.inl ⟨rfl, by simp⟩⟩
      | crossCore =>
        cases pendOk with
        | true =>
          cases hr
          exact ⟨rfl, hinit, hs true, Or.inl ⟨rfl, by simp⟩⟩
        | false =>
          cases hr
          exact ⟨rfl, hinit, hs b.pending, Or.inr ⟨rfl, rfl, rfl⟩⟩

/-- No spawn touches the flag. -/
theorem spawn_systemInitialized (p : SpawnApiParams) (t : G.Task) (input : I) (caller : Nat)
    (pendOk : Bool) (b : Statics G I) :
    (spawn p t input caller pendOk b).2.systemInitialized = b.systemInitialized := by
  rw [spawn]
  repeat' split
  all_goals rfl

/-- **When a spawn hands its input back.** -/
theorem spawn_eq_error_iff (p : SpawnApiParams) (t : G.Task) (input : I) (caller : Nat)
    (pendOk : Bool) (b : Statics G I) :
    spawn p t input caller pendOk b = (.error (some input), b) ↔
      p.coreCheck.any (caller != ·) = true ∨ b.systemInitialized = false ∨
        (b.inputs t).isFull = true := by
  rw [spawn, Queue.enqueue]
  cases p.coreCheck.any (caller != ·) with
  | true => simp
  | false =>
    cases b.systemInitialized with
    | false => simp
    | true =>
      cases (b.inputs t).isFull with
      | true => simp
      | false =>
        rcases p.pendStmt with _ | _ | _
        · simp
        · simp
        · cases pendOk <;> simp

/-! ## The inputs of one task -/

/-- The inputs of one task among the spawns of a group, in order. -/
def inputsOf {I : Type} (spawns : List (G.Task × I)) (t : G.Task) : List I :=
  (spawns.filter fun x => x.1 = t).map Prod.snd

theorem inputsOf_append (spawns : List (G.Task × I)) (t : G.Task) (x : I) :
    inputsOf (spawns ++ [(t, x)]) =
      Function.update (inputsOf spawns) t (inputsOf spawns t ++ [x]) := by
  funext u
  by_cases hu : u = t
  · subst hu
    simp [inputsOf]
  · simp [inputsOf, hu, Ne.symm hu]

theorem inputsOf_cons_self (spawns : List (G.Task × I)) (t : G.Task) (x : I) :
    inputsOf ((t, x) :: spawns) t = x :: inputsOf spawns t := by
  simp [inputsOf]

theorem inputsOf_cons_ne (spawns : List (G.Task × I)) {t u : G.Task} (x : I) (h : u ≠ t) :
    inputsOf ((t, x) :: spawns) u = inputsOf spawns u := by
  simp [inputsOf, Ne.symm h]

end Rticx.SwPass
