import Rticx.CortexM.PostInit

/-!
# The program of a core

A sub-app after the core pass, with what the software or the async pass has made of it: which
tasks a dispatcher executes and which are polled in idle. The generated code has one handler for
each task that is bound to an interrupt.
-/

namespace Rticx.CortexM

open Rticx.Core

structure Program where
  sub : SubApp
  /-- the tasks that a handler executes besides its own -/
  dispatched : RticTask → List RticTask
  /-- the tasks that idle executes besides its own -/
  polled : List RticTask
  dispatched_mem : ∀ t, ∀ u ∈ dispatched t, u ∈ sub.tasks
  /-- a dispatcher has the priority of its tasks; without the argument the passes read 0 -/
  dispatched_priority : ∀ t, ∀ u ∈ dispatched t, u.args.priority = t.args.priority ∨
    t.args.priority = 0 ∧ u.args.priority = defaultTaskPriority
  polled_mem : ∀ u ∈ polled, u ∈ sub.tasks
  /-- each handler is a function under the name of its interrupt -/
  binds_nodup : (sub.tasks.filterMap (·.args.binds)).Nodup

namespace Program

/-- A program without dispatchers. -/
def ofHandlers (sub : SubApp) (hnodup : (sub.tasks.filterMap (·.args.binds)).Nodup) : Program where
  sub := sub
  dispatched := fun _ => []
  polled := []
  dispatched_mem := by simp
  dispatched_priority := by simp
  polled_mem := by simp
  binds_nodup := hnodup

variable (P : Program)

/-- The task bound to an interrupt. -/
def handler (irq : Ident) : Option RticTask := P.sub.tasks.find? (·.args.binds = some irq)

/-- The tasks that a context executes; idle is the context without a handler. -/
def executes : Option RticTask → List RticTask
  | some t => t :: P.dispatched t
  | none => P.sub.idle.toList ++ P.polled

/-- The `CEILING` of a resource. -/
def ceiling (resource : Ident) : Nat := ((P.sub.getField resource).map (·.priority)).getD 0

/-- `post_init` of the sub-app. -/
def boot (b : Nat) : Except String Nvic := postInit b (SubAnalysis.run P.sub).usedIrqs

variable {P} {b : Nat} {nvic : Nvic} {irq : Ident} {h u : RticTask}

theorem handler_eq_some (hh : P.handler irq = some h) :
    h ∈ P.sub.tasks ∧ h.args.binds = some irq :=
  ⟨List.mem_of_find?_eq_some hh, by simpa using List.find?_some hh⟩

/-- A handler has the hardware priority of its task. -/
theorem boot_priority (hboot : P.boot b = .ok nvic) (hh : P.handler irq = some h) :
    nvic.priority irq = cortexLogical2hw (asU8 h.args.priority) b := by
  obtain ⟨hmem, hbinds⟩ := handler_eq_some hh
  have hirq : (⟨irq, h.args.priority⟩ : UsedIrq) ∈ (SubAnalysis.run P.sub).usedIrqs :=
    List.mem_filterMap.mpr ⟨h, hmem, by rw [hbinds]; rfl⟩
  exact postInit_priority (P.sub.usedIrqs_names.symm ▸ P.binds_nodup) hboot _ hirq

/-- The check of `post_init` passes. -/
theorem boot_ok (hle : ∀ t ∈ P.sub.tasks, t.args.binds.isSome = true → t.args.priority ≤ 2 ^ b) :
    ∃ nvic, P.boot b = .ok nvic := by
  refine postInit_ok ?_
  intro irq hirq
  obtain ⟨t, ht, hname⟩ := List.mem_filterMap.mp hirq
  obtain ⟨name, hbinds, rfl⟩ := Option.map_eq_some_iff.mp hname
  exact hle t ht (by rw [hbinds]; rfl)

/-- What a handler above idle executes has its priority. -/
theorem priority_of_executes (hh : h ∈ P.sub.tasks) (hu : u ∈ P.executes (some h))
    (hpos : 0 < h.args.priority) : u ∈ P.sub.tasks ∧ u.args.priority = h.args.priority := by
  rcases List.mem_cons.mp hu with rfl | hu
  · exact ⟨hh, rfl⟩
  · refine ⟨P.dispatched_mem h u hu, ?_⟩
    rcases P.dispatched_priority h u hu with heq | ⟨hzero, -⟩
    · exact heq
    · exact absurd hzero (Nat.pos_iff_ne_zero.mp hpos)

/-- The ceiling of a resource is not below a handler that uses it. -/
theorem le_ceiling_of_executes {resource : Ident} {e : SharedElement}
    (he : P.sub.getField resource = some e)
    (hceiling : e.priority = Core.ceiling P.sub.tasks resource) (hh : h ∈ P.sub.tasks)
    (hu : u ∈ P.executes (some h)) (hshared : resource ∈ u.args.shared) :
    h.args.priority ≤ P.ceiling resource := by
  have hfield : P.ceiling resource = e.priority := by
    rw [ceiling, he]
    rfl
  rw [hfield, hceiling]
  by_cases hpos : 0 < h.args.priority
  · obtain ⟨hmem, hprio⟩ := priority_of_executes hh hu hpos
    rw [← hprio]
    exact le_ceiling hmem hshared
  · omega

end Program

end Rticx.CortexM
